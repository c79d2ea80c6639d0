import InlineMarkup.Text.Alphabetic

/-!
The characters of identifiers: those that one can begin with and those that can follow, and the
letters that count as the same. The classes are closed under compatibility forms, so a letter whose
compatibility form is no identifier is left out.
-/
namespace InlineMarkup

def brokenLetters : CodeRanges :=
  .stretches 0x80 (packedNumbers "b2$Qc4$RK$TW*$l[>)Y.%R@$$$$$$$$$$$$$$$V;%")

/-- Characters that an identifier can begin with though they are not letters: numbers written as
letters, and a few signs. -/
def letterlikeRanges : CodeRanges :=
  .stretches 0x80 (packedNumbers "R|:&Y+%QUI$9$Q(G%'Qy2$=,2&`o7.[z8Q,Z8$+$S%(T[)R;")

/-- Characters beyond ASCII that can only follow the first one of an identifier: marks, digits and
connectors. -/
def followingRanges : CodeRanges :=
  .stretches 0x80 (packedNumbers "Q/$^0R<;$UC(V$Q$$$$%$%$$Q@/Q'C)$R1*%)%%$'%.;$B?R&/3.E,,$<'$,$&$(O&Q4+N<$EQ.&$6$*.%%.5&Q0$$*%%%&,$.%%
.2$%&Q0$$('%%&&$80&$/&Q0$$+$&$&8%%..)$&Q0$$*%%%&*&.%%.6$Q3(&&$',$2.4(Q/$$*$&$'*%/%%.5&Q0$$*$&$'*%/%%.4'Q/%$*$&$'
,$.%%.5&Q>$')$$$+).%%Q5$$+0+$.QO$$./)%.Q6%)./$$$$$'%Q(8$%(/$H,$R08$.0''&$&%*&'10$3`O&,,f''@&A%B%Q8D,$%.E&$/S/$RB
0'0..RL/Q4(Q1.$A%/).:2$4Q((Q&5/.5,0&B1%.Q!2Q'8+.).RB&$9'$)$%&T:Q8^&%7$RG1'$&0QjF&S,$R+D]>)R5%`hE.Q=$'.D%QH%V+$&$
'$;('$QK%Q)6..)61/@+=1Q!'Q&23./$..Q&20$+%%.E&Q)$$&%%(%$$M((%U4+$%%.Ze8$aE444&%<&T4.I$R)%^E$U)$S5(VA.p&&$%('L&'$S
E%^$'+.X5%S9/Q('RF&Q,3C/%%.'Q$/*$Q$.)&H2$.(%Q!$0&Q'2+'$0QJ0)$S@0(.)'Q/%$*%%%&,$.%%*&(T46,.'$QI80.TI*%,?%QJ53.QI1
+.QK3'.U:3SE.Q>)$%%'$$$%0.RC*%*&$@.L*$'+$,/Q%4Y,+$+4.Q0:$2RF)&$$%$*$$+.Q'($%$(+.W9'Y|E.QN.J(Q3*=.h$$$Q/*'QI$/%ZV
&%RcMQ%%;]2(&)++%*B'S4&q,Q)[@Q/'Q)+$2$:($3oL*$5%*$%$(UM*,.X'$Q52rN*R9*(.Re).YZwBU8")

def startsIdentifier (c : Char) : Bool :=
  if c.toNat < 0x80 then isAsciiLetter c || c == '_'
  else (isAlphabetic c && !brokenLetters.covers c) || letterlikeRanges.covers c

def continuesIdentifier (c : Char) : Bool :=
  if c.toNat < 0x80 then isAsciiLetter c || c == '_' || (decide ('0' ≤ c) && decide (c ≤ '9'))
  else startsIdentifier c || followingRanges.covers c

def isIdentifier : List Char → Bool
  | [] => false
  | c :: rest => startsIdentifier c && rest.all continuesIdentifier

/-- Runs of letters after the code `last` that have ASCII letters as compatibility forms, by the distance from the run
before, the length, and the form of the first letter. -/
def plainRunsAfter (last : Nat) : List Nat → List (Nat × Nat × Nat)
  | gap :: length :: form :: rest =>
    (last + gap, last + gap + length, form) :: plainRunsAfter (last + gap + length) rest
  | _ => []

def plainRuns : List (Nat × Nat × Nat) :=
  plainRunsAfter 0 (packedNumbers "SJ!R,4!R;T9!R?VM!R4%!R6$!R>'!RC$!REM!R8$!R?$!RDSeM!Q9%!Q:%$Q<%*Q?%!QG%!QH$!QJ$$QL$!QO$!R,'!R.$$R0'!R
3%!R7$!R9%!R;'!R<$$R@&!RB*!R5$!R>$$RAQ/!R/'!R2?!RF`F!R52!R:5!R,$!R1$!R;$!RD%!R4$&R7$!R<$$R?R2!Q;+!R3$!Q@$!Q@$!Q@
$!R4%!QA$!QA$!QD$!R8%!QF'%QH$!QJ$!QJ*!R%'!R%%!QC%$Q:%!R1$$Q=%!QE$!R;(!R50!Q<$$R0$$R5;!QA'!QN(!R!&!QD$$Q;$!QE$!R5
'!RB(!RD&!R8$$R/$!R9QdM!R6$!QNa_1!Q;$!Q>$!QI[h,=Q9*=R,QT/!R=lPO=Q9$=R,$=Q9$)R,%5R5$=Q9$=R,$!Q9%$Q;&!Q?&$QB&&QF%*
QK$&R,%!R2%)R4%.R<$=Q9$=R,$$Q9%&Q<&*QB%)QK%=R,$$Q9%&Q<%'QA%!QG')QK%=R,$=Q9$=R,$=Q9$=R,$=Q9$=R,$=Q9$=R,$=Q9$=R,$=
Q9$=R,")

def plainLetter (c : Char) : Char :=
  if c.toNat < 0x80 then c
  else match plainRuns.find? fun r => decide (r.1 ≤ c.toNat) && decide (c.toNat ≤ r.2.1) with
    | some (first, _, form) => Char.ofNat (form + (c.toNat - first))
    | none => c

end InlineMarkup
