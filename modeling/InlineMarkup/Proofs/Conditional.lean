import InlineMarkup.Proofs.ConditionalTree
import InlineMarkup.Proofs.Feeding

/-!
A builder that is fed a tree writes its expression. The pieces of output of each child are an
expression and the comma after it; the comma can be taken out, and then they are the expression
alone. The main statement is what the expression contributes, for every tree and every choice of
the names that hold.
-/
namespace InlineMarkup.Conditional

open Expression (Piece)
open Reading List
open Markup (OpenTag Build Builder)
open Markup.Builder

/-! ### Pieces of output that are expressions -/

def comma : Piece := .symbol [',']

/-- Pieces of output that are an expression and a comma, and without the comma the expression. -/
inductive Item : List Text → Expr → Prop where
  | mk {front : List Text} {x blanks : Text} {ps : List Piece} {e : Expr}
      (hblanks : ∀ c ∈ blanks, isBlank c = true) (hx : (x ++ [',']).head? ≠ some '#')
      (hopen : Lexes (front.flatten ++ (x ++ blanks)) ps)
      (hlex : Lexes (front.flatten ++ (x ++ ',' :: blanks)) (ps ++ [comma])) (hchain : Chain ps e) :
      Item (front ++ [x ++ ',' :: blanks]) e

inductive Items : List Text → List Expr → Prop where
  | nil : Items [] []
  | cons {first rest : List Text} {e : Expr} {es : List Expr} (hfirst : Item first e)
      (hrest : Items rest es) : Items (first ++ rest) (e :: es)

variable {xs : List Text} {es : List Expr} {e : Expr} {s : Text}

theorem Items.append {ys : List Text} {fs : List Expr} (hx : Items xs es) (hy : Items ys fs) :
    Items (xs ++ ys) (es ++ fs) := by
  induction hx with
  | nil => exact hy
  | cons hfirst _ ih =>
    rw [append_assoc]
    exact .cons hfirst ih

theorem Item.items (h : Item xs e) : Items xs [e] := by
  have hcons := Items.cons h .nil
  rwa [append_nil] at hcons

theorem Items.arguments (h : Items xs es) : ∃ ps, Lexes xs.flatten ps ∧ IsArguments ps es := by
  induction h with
  | nil => exact ⟨[], lexes_nil, isArguments_nil⟩
  | cons hfirst _ ih =>
    obtain ⟨qs, hqs, hargs⟩ := ih
    cases hfirst with
    | @mk front x blanks ps e _ _ _ hlex hchain =>
      refine ⟨ps ++ comma :: qs, ?_, hchain.arguments hargs⟩
      have hboth := hlex.append hqs
      simpa using hboth

theorem Item.ofPieces {front : List Text} {ps : List Piece} (hlex : Lexes front.flatten ps)
    (hchain : Chain ps e) : Item (front ++ [[',']]) e := by
  have hcomma : Lexes [','] [comma] := lexes_symbol (Or.inr (Or.inr rfl))
  exact @Item.mk front [] [] ps e (by simp) (by simp) (by simpa using hlex) (hlex.append hcomma) hchain

/-! ### Text -/

theorem mem_of_mem_trim {p : Char → Bool} {c : Char} (h : c ∈ Text.trim p s) : c ∈ s := by
  have hright : c ∈ Text.trimLeft p s := by
    have hdrop := (dropWhile_sublist p).subset (mem_reverse.mp h)
    exact mem_reverse.mp hdrop
  exact (dropWhile_sublist p).subset hright

theorem normalize_plain (h : ∀ c ∈ s, c ≠ '\\') : Plain (normalize s false false) := by
  intro c hc
  simp only [Markup.Builder.normalize, Bool.false_and, Bool.false_eq_true, if_false] at hc
  split at hc
  · cases hc
  · split at hc
    · cases hc
    · obtain ⟨d, hd, rfl⟩ := mem_map.mp hc
      split
      · exact ⟨by decide, by decide⟩
      · rename_i hline
        exact ⟨h d (mem_of_mem_trim hd), fun heq => hline (Or.inr heq)⟩

theorem Words.plain_content (s : Words) : Plain s.content := normalize_plain fun c hc => (s.plain c hc).2

theorem lexes_comma_space : Lexes [',', ' '] [comma] :=
  (lexes_symbol (Or.inr (Or.inr rfl))).append lexes_space

theorem item_spaced {x : Text} {ps : List Piece} (hx : (x ++ [',']).head? ≠ some '#')
    (hlex : Lexes x ps) (hchain : Chain ps e) : Item [x ++ [',', ' ']] e :=
  @Item.mk [] x [' '] ps e (by simp [isBlank]) hx (by simpa using hlex.append lexes_space)
    (hlex.append lexes_comma_space) hchain

theorem chain_text (s : Text) : Chain [.text s] (.text s) := .primary (isPrimary_text s) rfl

theorem isIdentifier_library : ∀ t, library = some t → isIdentifier t = true := by
  intro t ht
  cases ht
  decide

theorem isName_library (s : Text) : IsName (pathHead library s) := by
  have hname : IsName "html".toList := ⟨by decide, by decide⟩
  exact hname

theorem dataPiece_reads (hstring : Lexes ('u' :: '"' :: (quoted s ++ ['"'])) [.text s]) :
    ∃ x ps, dataPiece s = x ++ [',', ' '] ∧ (x ++ [',']).head? ≠ some '#' ∧ Lexes x ps ∧ Chain ps (textExpr s) := by
  by_cases hescape : quoted s ≠ Text.escape (quoted s)
  · have hpiece : dataPiece s = "html.rawhtml(u\"".toList ++ quoted s ++ "\"), ".toList := if_pos hescape
    have hexpr : textExpr s = .call (path library "rawhtml".toList) [.text s] := if_pos hescape
    have hpath := lexes_path (m := library) (s := "rawhtml".toList) isIdentifier_library (by decide)
    have hclose : Lexes [')'] [.symbol [')']] := lexes_symbol (Or.inr (Or.inl rfl))
    have hcall := isPrimary_call (isName_library "rawhtml".toList) (chain_text s).argument
    have hlex := hpath.append (hstring.append hclose)
    rw [append_assoc] at hlex
    refine ⟨_, _, ?_, ?_, hlex, ?_⟩
    · rw [hpiece]
      simp [pathText, library]
    · simp [pathText, library]
    · rw [hexpr]
      exact .primary hcall rfl
  · have hpiece : dataPiece s = "u\"".toList ++ quoted s ++ "\", ".toList := if_neg hescape
    have hexpr : textExpr s = .text s := if_neg hescape
    refine ⟨_, _, ?_, ?_, hstring, ?_⟩
    · rw [hpiece]
      simp
    · simp
    · rw [hexpr]
      exact chain_text s

theorem item_text (hs : Plain s) (hne : s ≠ []) : Item [dataPiece s] (textExpr s) := by
  obtain ⟨x, ps, hpiece, hx, hlex, hchain⟩ := dataPiece_reads (lexes_string hs hne)
  rw [hpiece]
  exact item_spaced hx hlex hchain

def Words.pieces (s : Words) : List Text := if s.content = [] then [] else [dataPiece s.content]

theorem Words.items (s : Words) : Items s.pieces s.exprs := by
  unfold Words.pieces Words.exprs
  split
  · exact .nil
  · exact (item_text s.plain_content ‹_›).items

/-! ### Elements -/

theorem className_eq {tag : Text} (h : isIdentifier tag = true) :
    className tag = ("x_".toList ++ tag, Element.Vocabulary.htmlTags.contains tag) := by
  have hpoint : ∀ c ∈ tag.reverse, (c != '.') = true := by
    intro c hc
    have hlike := all_nameLike h c (mem_reverse.mp hc)
    have hne : c ≠ '.' := by
      rintro rfl
      exact absurd hlike (by decide)
    simpa using hne
  have htail : (tag.reverse.takeWhile (· != '.')).reverse = tag := by
    rw [takeWhile_eq_self_iff.mpr hpoint, reverse_reverse]
  simp [className, htail]

theorem TagName.classPieces_eq (tag : TagName) :
    (classPieces tag.text).flatten = pathText tag.home ("x_".toList ++ tag.text) ++ ['('] := by
  rw [classPieces, className_eq tag.identifier, TagName.home]
  split
  · simp [pathText, library]
  · simp [pathText]

theorem isIdentifier_class {tag : Text} (h : isIdentifier tag = true) :
    isIdentifier ("x_".toList ++ tag) = true := by
  cases tag with
  | nil => cases h
  | cons c rest =>
    simp only [isIdentifier, Bool.and_eq_true, all_eq_true] at h
    have hall : ∀ d ∈ '_' :: c :: rest, continuesIdentifier d = true := by
      intro d hd
      rcases mem_cons.mp hd with rfl | hd
      · decide
      rcases mem_cons.mp hd with rfl | hd
      · exact continues_of_starts h.1
      · exact h.2 d hd
    have hx : startsIdentifier 'x' = true := by decide
    simpa [isIdentifier, hx] using hall

theorem isName_class (tag : Text) : IsName ("x_".toList ++ tag) := by
  refine ⟨by simp [noneWord], ?_⟩
  simp [Expression.keywords]

theorem TagName.isName_head (tag : TagName) : IsName (pathHead tag.home ("x_".toList ++ tag.text)) := by
  unfold TagName.home
  split
  · exact isName_library _
  · exact isName_class tag.text

def elementPieces (tag : Text) (children : List Text) : List Text :=
  classPieces tag ++ [[')'], ['(']] ++ children ++ [[')']]

theorem lexes_element (tag : TagName) {xs : List Text} {es : List Expr} (h : Items xs es) :
    ∃ ps, Lexes (elementPieces tag.text xs).flatten ps ∧ Chain ps (.call (.call tag.cls []) es) := by
  obtain ⟨ps, hps, hargs⟩ := h.arguments
  have hopen : Lexes ['('] [.symbol ['(']] := lexes_symbol (Or.inl rfl)
  have hclose : Lexes [')'] [.symbol [')']] := lexes_symbol (Or.inr (Or.inl rfl))
  have hmodule : ∀ t, tag.home = some t → isIdentifier t = true := by
    intro t ht
    unfold TagName.home at ht
    split at ht
    · exact isIdentifier_library t ht
    · cases ht
  have hpath := lexes_path hmodule (isIdentifier_class tag.identifier)
  have hlex := hpath.append (hclose.append (hopen.append (hps.append hclose)))
  refine ⟨_, ?_, .primary (isPrimary_element tag.isName_head hargs) rfl⟩
  rw [← tag.classPieces_eq] at hlex
  simpa [elementPieces] using hlex

/-! ### Conditionals -/

theorem lexes_fragment (h : Items xs es) :
    ∃ ps, Lexes (fragmentPiece :: (xs ++ [[')']])).flatten ps ∧ Chain ps (fragment es) := by
  obtain ⟨ps, hps, hargs⟩ := h.arguments
  have hopen : Lexes ['('] [.symbol ['(']] := lexes_symbol (Or.inl rfl)
  have hclose : Lexes [')'] [.symbol [')']] := lexes_symbol (Or.inr (Or.inl rfl))
  have hpath := lexes_path (m := library) (s := "x_frag".toList) isIdentifier_library (by decide)
  have hlex := hpath.append (hclose.append (hopen.append (hps.append hclose)))
  have helement := isPrimary_element (isName_library "x_frag".toList) hargs
  have htext : fragmentPiece = pathText library "x_frag".toList ++ ['('] ++ [')'] ++ ['('] := by decide
  refine ⟨_, ?_, Chain.primary helement rfl⟩
  rw [flatten_cons, htext]
  simpa using hlex

theorem Body.closes (body : Body) {xs : List Text} (h : Items xs body.exprs) :
    ∃ closed ps, Closes body.count xs closed ∧ Lexes closed.flatten ps ∧ Chain ps body.branch := by
  by_cases hone : body.count = 1
  · obtain ⟨e, he⟩ : ∃ e, body.exprs = [e] := by
      obtain ⟨s, rfl, hexprs⟩ | ⟨_, node, _, _, _, hexprs⟩ := Body.single hone
      · exact ⟨_, hexprs⟩
      · exact ⟨_, hexprs⟩
    have hbranch : body.branch = e := by rw [Body.branch, joined, if_pos hone, he]; rfl
    rw [he] at h
    rw [hbranch]
    cases h with
    | cons hfirst hrest =>
      cases hrest
      cases hfirst with
      | mk hblanks hx hopen _ hchain =>
        refine ⟨_, _, .single hone (append_nil _) hblanks hx, ?_, hchain⟩
        simpa using hopen
  · obtain ⟨ps, hps, hchain⟩ := lexes_fragment h
    refine ⟨_, ps, .several hone, hps, ?_⟩
    rw [Body.branch, joined, if_neg hone]
    exact hchain

theorem endsName_space : EndsName ' ' := ⟨by decide, by decide, by decide⟩

theorem lexes_if : Lexes " if ".toList [ifWord] :=
  lexes_space.append (lexes_name (w := "if".toList) (by decide) endsName_space lexes_space)

theorem lexes_else : Lexes "else ".toList [elseWord] :=
  lexes_name (w := "else".toList) (by decide) endsName_space lexes_space

theorem lexes_condition (test : ConditionName) :
    ∃ ts, Lexes (conditionPieces (test.text ++ [' '])).flatten (ifWord :: ts) ∧ IsPrimary ts (.name test.text) := by
  have hname : Lexes (test.text ++ [' ']) [.name test.text] :=
    lexes_name test.identifier endsName_space lexes_space
  have htest : IsPrimary [.name test.text] (.name test.text) := isPrimary_name test.isName
  unfold conditionPieces
  split
  · have hopen : Lexes ['('] [.symbol ['(']] := lexes_symbol (Or.inl rfl)
    have hclose : Lexes [')'] [.symbol [')']] := lexes_symbol (Or.inr (Or.inl rfl))
    have hlex := lexes_if.append (hopen.append (hname.append hclose))
    refine ⟨_, ?_, .parenthesized (.primary htest rfl)⟩
    simpa using hlex
  · have hlex := lexes_if.append hname
    refine ⟨_, ?_, htest⟩
    simpa using hlex

theorem item_choice (test : ConditionName) (yes : Body) {closed : List Text} {ps : List Piece}
    (hps : Lexes closed.flatten ps) (hchain : Chain ps yes.branch) :
    Item (closed ++ conditionPieces (test.text ++ [' ']) ++ [[], " else None, ".toList])
      (Node.choice test yes).expr := by
  obtain ⟨ts, hts, htest⟩ := lexes_condition test
  have hnone (blanks : Text) {d : Char} (hd : EndsName d) {qs : List Piece} (hlex : Lexes (d :: blanks) qs) :
      Lexes (" else None".toList ++ d :: blanks) (elseWord :: .name noneWord :: qs) := by
    have hword := lexes_name (w := noneWord) (by decide) hd hlex
    exact (lexes_space.append lexes_else).append hword
  have hopen := hps.append (hts.append (hnone [] endsName_space lexes_space))
  have hlex := hps.append (hts.append (hnone [' '] ⟨by decide, by decide, by decide⟩ lexes_comma_space))
  have hitem := @Item.mk (closed ++ conditionPieces (test.text ++ [' ']) ++ [[]]) " else None".toList
    [' '] _ _ (by simp [isBlank]) (by simp) (by simpa using hopen) (by simpa using hlex)
    (hchain.graft htest (.primary isPrimary_none rfl))
  have hexpr : (Node.choice test yes).expr = graft (.name test.text) .none yes.branch := by
    rw [Node.expr, Body.branch]
  rw [hexpr]
  simpa using hitem

theorem item_choiceElse (test : ConditionName) (yes : Body) (gap : Gap) (no : Body)
    {closed other : List Text} {ps qs : List Piece} (hps : Lexes closed.flatten ps)
    (hchain : Chain ps yes.branch) (hqs : Lexes other.flatten qs) (hother : Chain qs no.branch) :
    Item (closed ++ conditionPieces (test.text ++ [' ']) ++ [[], "else ".toList] ++ other ++ [[',']])
      (Node.choiceElse test yes gap no).expr := by
  obtain ⟨ts, hts, htest⟩ := lexes_condition test
  have hlex := hps.append (hts.append (lexes_else.append hqs))
  refine Item.ofPieces ?_ (hchain.graft htest hother)
  simpa using hlex

/-! ### Feeding trees -/

def feedChoice (test : ConditionName) (children : Build Unit) : Build Unit := do
  feedIf test.text
  children
  feedText (endTag "if".toList)

mutual

def Node.feed : Node → Build Unit
  | .element tag body => do
    feedText (startTag tag.text)
    body.feed
    feedText (endTag tag.text)
  | .choice test yes => feedChoice test yes.feed
  | .choiceElse test yes gap no => do
    feedChoice test yes.feed
    feedText gap.text
    feedText (startTag "else".toList)
    no.feed
    feedText (endTag "else".toList)

def Body.feed : Body → Build Unit
  | .last s => feedText s.text
  | .cons s node rest => do
    feedText s.text
    node.feed
    rest.feed

end

def Body.ending : Body → Words
  | .last s => s
  | .cons _ _ rest => rest.ending

def Among (b : Builder) (done : List Text) (t : OpenTag) (ts : List OpenTag) (data : Text) : Prop :=
  ∃ out afterIf, Ready b ⟨pending out afterIf, t :: ts, afterIf⟩ data ∧ settled out afterIf = done

def more (t : OpenTag) (n : Nat) : OpenTag := { t with children := t.children + n }

def Node.Fed (node : Node) : Prop :=
  ∀ (s : Words) {b : Builder} {done : List Text} {t : OpenTag} {ts : List OpenTag},
    Among b done t ts s.text → ∃ c xs, node.feed b = .ok () c ∧
      Among c (done ++ s.pieces ++ xs) (more t (s.count + node.count)) ts [] ∧ Item xs node.expr

def Body.Fed (body : Body) : Prop :=
  ∀ {b : Builder} {done : List Text} {t : OpenTag} {ts : List OpenTag},
    Among b done t ts [] → ∃ c xs n, body.feed b = .ok () c ∧
      Among c (done ++ xs) (more t n) ts body.ending.text ∧ Items (xs ++ body.ending.pieces) body.exprs ∧
      n + body.ending.count = body.count

theorem Words.not_open (s : Words) : ∀ c ∈ s.text, c ≠ '<' := fun c hc => (s.plain c hc).1

theorem Words.writes (s : Words) (out : List Text) (t : OpenTag) (ts : List OpenTag) (afterIf : Bool) :
    ∃ out' afterIf', Does (writeData s.text) ⟨pending out afterIf, t :: ts, afterIf⟩
      ⟨pending out' afterIf', more t s.count :: ts, afterIf'⟩ ∧
        settled out' afterIf' = settled out afterIf ++ s.pieces := by
  by_cases hcontent : s.content = []
  · rw [Words.count, Words.pieces, if_pos hcontent, if_pos hcontent]
    exact ⟨out, afterIf, does_writeData_nothing hcontent, (append_nil _).symm⟩
  · refine ⟨settled out afterIf ++ [dataPiece s.content], false, ?_, ?_⟩
    · rw [Words.count, if_neg hcontent]
      exact does_writeData hcontent out (t :: ts) afterIf
    · rw [Words.pieces, if_neg hcontent]
      rfl

theorem Body.Fed.last (s : Words) : (Body.last s).Fed := by
  rintro b done t ts ⟨out, afterIf, hready, hdone⟩
  obtain ⟨c, hc, hnext⟩ := feeds_text [] (Or.inl (cons_ne_nil t ts)) s.not_open b hready
  refine ⟨c, [], 0, hc, ⟨out, afterIf, ?_, by simpa using hdone⟩, ?_, ?_⟩
  · exact hnext
  · simpa [Body.ending, Body.exprs] using s.items
  · simp [Body.ending, Body.count]

theorem Body.Fed.cons (s : Words) {node : Node} {rest : Body} (hnode : node.Fed) (hrest : rest.Fed) :
    (Body.cons s node rest).Fed := by
  rintro b done t ts ⟨out, afterIf, hready, hdone⟩
  obtain ⟨b₁, hb₁, hready₁⟩ := feeds_text [] (Or.inl (cons_ne_nil t ts)) s.not_open b hready
  obtain ⟨b₂, xs, hb₂, hamong₂, hitem⟩ := hnode s ⟨out, afterIf, hready₁, hdone⟩
  obtain ⟨c, ys, n, hc, hamong, hitems, hcount⟩ := hrest hamong₂
  refine ⟨c, s.pieces ++ xs ++ ys, s.count + node.count + n, ?_, ?_, ?_, ?_⟩
  · exact (bind_ok hb₁).trans ((bind_ok hb₂).trans hc)
  · simpa [more, Body.ending, Nat.add_assoc] using hamong
  · rw [Body.exprs]
    simpa [Body.ending] using s.items.append (Items.cons hitem hitems)
  · rw [Body.count, Body.ending]
    omega

theorem Body.Fed.ends {body : Body} (hbody : body.Fed) {name : Text} (hname : IsTagName name) {b : Builder}
    {done : List Text} {t : OpenTag} {ts : List OpenTag} (hb : Ready b ⟨done, t :: ts, false⟩ []) {P : View → Prop}
    (hend : ∀ out afterIf xs, settled out afterIf = done ++ xs → Items xs body.exprs →
      ∃ w, Does (endElement name true) ⟨pending out afterIf, more t body.count :: ts, afterIf⟩ w ∧ P w) :
    ∃ c w, (body.feed >>= fun _ => feedText (endTag name)) b = .ok () c ∧ Ready c w [] ∧ P w := by
  have hamong : Among b done t ts [] := ⟨done, false, hb, rfl⟩
  obtain ⟨b₁, xs, n, hb₁, ⟨out, afterIf, hready, hdone⟩, hitems, hcount⟩ := hbody hamong
  obtain ⟨out', afterIf', hdata, hsettled⟩ := body.ending.writes out (more t n) ts afterIf
  have hmore : more (more t n) body.ending.count = more t body.count := by
    simp [more, ← hcount, Nat.add_assoc]
  rw [hmore] at hdata
  obtain ⟨w, hw, hP⟩ := hend out' afterIf' (xs ++ body.ending.pieces)
    (by rw [hsettled, hdone, append_assoc]) hitems
  obtain ⟨c, hc, hlast⟩ := feeds_finish (Or.inl (cons_ne_nil _ _)) hname hdata hw b₁ hready
  exact ⟨c, w, (bind_ok hb₁).trans hc, hlast, hP⟩

theorem TagName.isTagName (tag : TagName) : IsTagName tag.text :=
  isTagName_of_identifier tag.identifier tag.letter

theorem feed_element (tag : TagName) {body : Body} (hbody : body.Fed) {b : Builder} {u : View} {d : Text}
    {out : List Text} {tags : List OpenTag} {afterIf : Bool} (hb : Ready b u d) (hu : u.IsOpen)
    (hdata : Does (writeData d) u ⟨pending out afterIf, tags, afterIf⟩) :
    ∃ c xs, (Node.element tag body).feed b = .ok () c ∧ Items xs body.exprs ∧
      Ready c ⟨settled out afterIf ++ elementPieces tag.text xs ++ Builder.comma tags, bump tags, false⟩ [] := by
  have hbegin := does_beginElement tag.ne_if tag.ne_else out tags afterIf
  obtain ⟨b₁, hb₁, hready⟩ := feeds_start hu tag.isTagName hdata hbegin b hb
  have hcomma : Builder.comma (bump tags) = Builder.comma tags := by cases tags <;> rfl
  obtain ⟨c, w, hc, hlast, xs, hitems, rfl⟩ := hbody.ends tag.isTagName hready
    (P := fun w => ∃ xs, Items xs body.exprs ∧
      w = ⟨settled out afterIf ++ elementPieces tag.text xs ++ Builder.comma tags,
        bump tags, false⟩) fun out' afterIf' xs hdone hitems => by
      refine ⟨_, does_endElement (t := more { tag := tag.text, row := 0, attributes := [] } body.count) tag.ne_if tag.ne_else (bump tags) out' afterIf', xs, hitems, ?_⟩
      rw [hdone, hcomma]
      simp [elementPieces]
  exact ⟨c, xs, (bind_ok hb₁).trans hc, hitems, hlast⟩

theorem Node.Fed.element (tag : TagName) {body : Body} (hbody : body.Fed) : (Node.element tag body).Fed := by
  rintro s b done t ts ⟨out, afterIf, hready, hdone⟩
  obtain ⟨out', afterIf', hdata, hsettled⟩ := s.writes out t ts afterIf
  obtain ⟨c, xs, hc, hitems, hlast⟩ := feed_element tag hbody hready (Or.inl (cons_ne_nil t ts)) hdata
  obtain ⟨ps, hps, hchain⟩ := lexes_element tag hitems
  refine ⟨c, elementPieces tag.text xs ++ [[',']], hc, ⟨_, false, hlast, ?_⟩, ?_⟩
  · rw [hsettled, hdone]
    simp [settled, Builder.comma]
  · rw [Node.expr]
    exact Item.ofPieces hps hchain

theorem feed_choice (test : ConditionName) {yes : Body} (hyes : yes.Fed) (s : Words) {b : Builder}
    {done : List Text} {t : OpenTag} {ts : List OpenTag} (h : Among b done t ts s.text) :
    ∃ c closed ps, feedChoice test yes.feed b = .ok () c ∧ Lexes closed.flatten ps ∧ Chain ps yes.branch ∧
      Ready c ⟨pending (done ++ s.pieces ++ closed ++ conditionPieces (test.text ++ [' '])) true,
        more t (s.count + 1) :: ts, true⟩ [] := by
  obtain ⟨out, afterIf, hready, hdone⟩ := h
  obtain ⟨out', afterIf', hdata, hsettled⟩ := s.writes out t ts afterIf
  obtain ⟨p, b₁, hb₁, hready₁⟩ :=
    @feeds_if _ _ _ _ _ test.text (Or.inl (cons_ne_nil t ts)) hdata _ hready
  rw [hsettled, hdone] at hready₁
  have hname : IsTagName "if".toList := isTagName_of_identifier (by decide) (by decide)
  obtain ⟨c, w, hc, hlast, closed, ps, hps, hchain, rfl⟩ := hyes.ends hname hready₁
    (P := fun w => ∃ closed ps, Lexes closed.flatten ps ∧ Chain ps yes.branch ∧
      w = ⟨pending (done ++ s.pieces ++ closed ++ conditionPieces (test.text ++ [' '])) true,
        more t (s.count + 1) :: ts, true⟩) fun out' afterIf' xs hdone hitems => by
      obtain ⟨closed, ps, hcloses, hps, hchain⟩ := yes.closes hitems
      have hcloses' : Closes (0 + yes.count) xs closed := by rwa [Nat.zero_add]
      refine ⟨_, does_endIf rfl rfl (plain_codeTokens p test.text) rfl ?_ hcloses', closed, ps, hps, hchain, rfl⟩
      simpa using hdone
  exact ⟨c, closed, ps, (bind_ok hb₁).trans hc, hps, hchain, hlast⟩

theorem Node.Fed.choice (test : ConditionName) {yes : Body} (hyes : yes.Fed) : (Node.choice test yes).Fed := by
  intro s b done t ts h
  obtain ⟨c, closed, ps, hc, hps, hchain, hlast⟩ := feed_choice test hyes s h
  refine ⟨c, _, hc, ⟨_, true, hlast, ?_⟩, item_choice test yes hps hchain⟩
  simp [settled]

theorem Node.Fed.choiceElse (test : ConditionName) {yes : Body} (hyes : yes.Fed) (gap : Gap) {no : Body}
    (hno : no.Fed) : (Node.choiceElse test yes gap no).Fed := by
  intro s b done t ts h
  obtain ⟨b₁, closed, ps, hb₁, hps, hchain, hready₁⟩ := feed_choice test hyes s h
  obtain ⟨first, hfirst⟩ : ∃ first, first = done ++ s.pieces ++ closed ++ conditionPieces (test.text ++ [' ']) :=
    ⟨_, rfl⟩
  rw [← hfirst] at hready₁
  have hopen : View.IsOpen ⟨pending first true, more t (s.count + 1) :: ts, true⟩ :=
    Or.inl (cons_ne_nil _ _)
  obtain ⟨b₂, hb₂, hready₂⟩ := feeds_text [] hopen gap.not_open b₁ hready₁
  have hname : IsTagName "else".toList := isTagName_of_identifier (by decide) (by decide)
  obtain ⟨b₃, hb₃, hready₃⟩ := feeds_start hopen hname (does_writeData_nothing gap.blank)
    (does_beginElse _ _) b₂ hready₂
  obtain ⟨c, w, hc, hlast, other, qs, hqs, hother, rfl⟩ := hno.ends hname hready₃
    (P := fun w => ∃ other qs, Lexes other.flatten qs ∧ Chain qs no.branch ∧
      w = ⟨first ++ [[], "else ".toList] ++ other ++ [[',']], more t (s.count + 2) :: ts, false⟩)
    fun out afterIf xs hdone hitems => by
      obtain ⟨other, qs, hcloses, hqs, hother⟩ := no.closes hitems
      have hcloses' : Closes (0 + no.count) xs other := by rwa [Nat.zero_add]
      have hout : settled out afterIf = first ++ [[], "else ".toList] ++ fragmentPiece :: xs := by
        rw [hdone]
        simp
      exact ⟨_, does_endElse rfl (by simp [more]) hout hcloses', other, qs, hqs, hother, rfl⟩
  refine ⟨c, _, ?_, ⟨_, false, hlast, ?_⟩, item_choiceElse test yes gap no hps hchain hqs hother⟩
  · exact (bind_ok hb₁).trans ((bind_ok hb₂).trans ((bind_ok hb₃).trans hc))
  · rw [hfirst]
    simp [settled]

mutual

theorem Node.fed : ∀ node : Node, node.Fed
  | .element tag body => Node.Fed.element tag body.fed
  | .choice test yes => Node.Fed.choice test yes.fed
  | .choiceElse test yes gap no => Node.Fed.choiceElse test yes.fed gap no.fed

theorem Body.fed : ∀ body : Body, body.Fed
  | .last s => Body.Fed.last s
  | .cons s node rest => Body.Fed.cons s node.fed rest.fed

end

theorem read_element (tag : TagName) (body : Body) (p : Pos) (textFunction : Text) :
    ∃ b, (Node.element tag body).feed (begin p textFunction) = .ok () b ∧ b.isDone = true ∧
      read b.token.text = some (Node.element tag body).expr := by
  have hready : Ready (begin p textFunction) ⟨pending [] false, [], false⟩ [] :=
    ⟨⟨rfl, rfl, rfl, rfl, rfl⟩, rfl, rfl⟩
  obtain ⟨b, xs, hb, hitems, hlast⟩ := feed_element tag body.fed hready (Or.inr rfl)
    (does_writeData_nothing rfl)
  obtain ⟨ps, hps, hchain⟩ := lexes_element tag hitems
  have hout : b.output.toList = elementPieces tag.text xs := by
    rw [hlast.shows.output]
    simp [settled, Builder.comma]
  refine ⟨b, hb, ?_, ?_⟩
  · have htags : b.openTags = [] := map_eq_nil_iff.mp hlast.shows.tags
    have hne : b.output ≠ #[] := by
      intro hempty
      rw [hempty] at hout
      simp [elementPieces] at hout
    simp [isDone, htags, hlast.state, hne]
  · have htoken : b.token.text = (elementPieces tag.text xs).flatten := by rw [← hout]; rfl
    rw [htoken, Node.expr]
    exact read_of_chain hps hchain

/-- The expression of an element contributes, for every choice of the names that hold, the children
of each `if` whose condition holds or whose only child is an `if` that fires; so it contributes
exactly the selected children where no `if` fires in one whose condition does not hold. -/
theorem values_of_conditionals (tag : TagName) (body : Body) (p : Pos) (textFunction : Text) :
    ∃ b e, (Node.element tag body).feed (begin p textFunction) = .ok () b ∧ b.isDone = true ∧
      read b.token.text = some e ∧ ∀ holds : Text → Bool,
        e.values holds = (Node.element tag body).contributes holds ∧
        ((Node.element tag body).leaks holds = false → e.values holds = (Node.element tag body).selects holds) := by
  obtain ⟨b, hb, hdone, hread⟩ := read_element tag body p textFunction
  refine ⟨b, _, hb, hdone, hread, fun holds => ⟨Node.values_expr holds _, fun hleaks => ?_⟩⟩
  rw [Node.values_expr]
  exact Node.contributes_of_not_leaks hleaks

/-! ### An `if` in an `if` -/

def paragraph : TagName := ⟨"p".toList, by decide, by decide, by decide, by decide⟩

def noWords : Words := ⟨[], by simp⟩

def ifInIf : Body :=
  .cons noWords (.choice ⟨"a".toList, by decide, by decide, by decide⟩
    (.cons noWords (.choice ⟨"b".toList, by decide, by decide, by decide⟩ (.last ⟨"X".toList, by simp⟩))
      (.last noWords))) (.last noWords)

/-- Where both conditions hold, the text is contributed. -/
theorem values_of_conditionals_ifInIf : (Node.element paragraph ifInIf).leaks (fun _ => true) = false ∧
      ∃ b e, (Node.element paragraph ifInIf).feed (begin ⟨1, 0⟩ "str".toList) = .ok () b ∧
        read b.token.text = some e ∧ e.values (fun _ => true) = [.element paragraph.cls [.text "X".toList]] := by
  obtain ⟨b, e, hb, -, hread, hvalues⟩ := values_of_conditionals paragraph ifInIf ⟨1, 0⟩ "str".toList
  exact ⟨by decide, b, e, hb, hread, (hvalues fun _ => true).2 (by decide)⟩

/-- Where the outer condition does not hold and the inner one does, the text is contributed, and it is
not selected. -/
theorem ifInIf_not_selected : ∃ b e, (Node.element paragraph ifInIf).feed (begin ⟨1, 0⟩ "str".toList) = .ok () b ∧
      read b.token.text = some e ∧ e.values (· == "b".toList) = [.element paragraph.cls [.text "X".toList]] ∧
      (Node.element paragraph ifInIf).selects (· == "b".toList) = [.element paragraph.cls []] := by
  obtain ⟨b, hb, -, hread⟩ := read_element paragraph ifInIf ⟨1, 0⟩ "str".toList
  exact ⟨b, _, hb, hread, rfl, rfl⟩

end InlineMarkup.Conditional
