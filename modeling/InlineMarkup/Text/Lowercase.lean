/-!
Lower case. A table of runs gives the characters whose lower case is one other character; the
dotted capital I alone has a lower case of two characters.
-/
namespace InlineMarkup

/-- Every `step`-th character from `first` to `last` has its lower case `shift` code points
further on. -/
structure CaseRun where
  first : Nat
  last : Nat
  step : Nat
  shift : Int

def CaseRun.covers (r : CaseRun) (c : Char) : Bool :=
  decide (r.first ≤ c.toNat) && decide (c.toNat ≤ r.last) && (c.toNat - r.first) % r.step == 0

/-- Runs after the code `last`, by the distance from the run before, the length, the step, and the shift: twice it,
or one less than twice a shift back. -/
def caseRunsAfter (last : Nat) : List Nat → List CaseRun
  | gap :: length :: step :: shift :: rest =>
    ⟨last + gap, last + gap + length, step, if shift % 2 = 0 then shift / 2 else -((shift + 1) / 2)⟩ ::
      caseRunsAfter (last + gap + length) rest
  | _ => []

def caseRuns : List CaseRun :=
  caseRunsAfter 0 [
    192, 22, 1, 64, 2, 6, 1, 64, 34, 46, 2, 2, 4, 4, 2, 2, 3, 14, 2, 2, 3, 44, 2, 2, 2, 0, 1, 241, 1, 4, 2, 2, 4, 0,
    1, 420, 1, 2, 2, 2, 2, 0, 1, 412, 1, 0, 1, 2, 2, 1, 1, 410, 1, 0, 1, 2, 3, 0, 1, 158, 1, 0, 1, 404, 1, 0, 1,
    406, 1, 0, 1, 2, 2, 0, 1, 410, 1, 0, 1, 414, 2, 0, 1, 422, 1, 0, 1, 418, 1, 0, 1, 2, 4, 0, 1, 422, 1, 0, 1, 426,
    2, 0, 1, 428, 1, 4, 2, 2, 2, 0, 1, 436, 1, 0, 1, 2, 2, 0, 1, 436, 3, 0, 1, 2, 2, 0, 1, 436, 1, 0, 1, 2, 2, 1, 1,
    434, 1, 2, 2, 2, 2, 0, 1, 438, 1, 0, 1, 2, 4, 0, 1, 2, 8, 0, 1, 4, 1, 0, 1, 2, 2, 0, 1, 4, 1, 0, 1, 2, 2, 0, 1,
    4, 1, 16, 2, 2, 3, 16, 2, 2, 3, 0, 1, 4, 1, 2, 2, 2, 2, 0, 1, 193, 1, 0, 1, 111, 1, 38, 2, 2, 2, 0, 1, 259, 2,
    16, 2, 2, 8, 0, 1, 21590, 1, 0, 1, 2, 2, 0, 1, 325, 1, 0, 1, 21584, 3, 0, 1, 2, 2, 0, 1, 389, 1, 0, 1, 138, 1,
    0, 1, 142, 1, 8, 2, 2, 290, 2, 2, 2, 4, 0, 1, 2, 9, 0, 1, 232, 7, 0, 1, 76, 2, 2, 1, 74, 2, 0, 1, 128, 2, 1, 1,
    126, 2, 16, 1, 64, 2, 8, 1, 64, 36, 0, 1, 16, 9, 22, 2, 2, 6, 0, 1, 119, 3, 0, 1, 2, 2, 0, 1, 13, 1, 0, 1, 2, 3,
    2, 1, 259, 1, 15, 1, 160, 1, 31, 1, 64, 49, 32, 2, 2, 10, 52, 2, 2, 2, 0, 1, 30, 1, 12, 2, 2, 3, 94, 2, 2, 3,
    37, 1, 96, 2890, 37, 1, 14528, 2, 0, 1, 14528, 6, 0, 1, 14528, 723, 79, 1, 77728, 1, 5, 1, 16, 2203, 42, 1,
    6015, 3, 2, 1, 6015, 321, 148, 2, 2, 10, 0, 1, 15229, 2, 94, 2, 2, 10, 7, 1, 15, 9, 5, 1, 15, 11, 7, 1, 15, 9,
    7, 1, 15, 9, 5, 1, 15, 12, 6, 2, 15, 9, 7, 1, 15, 25, 7, 1, 15, 9, 7, 1, 15, 9, 7, 1, 15, 9, 1, 1, 15, 1, 1, 1,
    147, 1, 0, 1, 17, 12, 3, 1, 171, 1, 0, 1, 17, 12, 1, 1, 15, 1, 1, 1, 199, 13, 1, 1, 15, 1, 1, 1, 223, 1, 0, 1,
    13, 12, 1, 1, 255, 1, 1, 1, 251, 1, 0, 1, 17, 298, 0, 1, 15033, 4, 0, 1, 16765, 1, 0, 1, 16523, 7, 0, 1, 56, 46,
    15, 1, 32, 20, 0, 1, 2, 819, 25, 1, 52, 1841, 47, 1, 96, 49, 0, 1, 2, 2, 0, 1, 21485, 1, 0, 1, 7627, 1, 0, 1,
    21453, 3, 4, 2, 2, 2, 0, 1, 21559, 1, 0, 1, 21497, 1, 0, 1, 21565, 1, 0, 1, 21563, 2, 0, 1, 2, 3, 0, 1, 2, 9, 1,
    1, 21629, 1, 98, 2, 2, 9, 2, 2, 2, 5, 0, 1, 2, 31054, 44, 2, 2, 20, 26, 2, 2, 136, 12, 2, 2, 4, 60, 2, 2, 11, 2,
    2, 2, 2, 0, 1, 70663, 1, 8, 2, 2, 5, 0, 1, 2, 2, 0, 1, 84559, 3, 2, 2, 2, 4, 18, 2, 2, 2, 0, 1, 84615, 1, 0, 1,
    84637, 1, 0, 1, 84629, 1, 0, 1, 84609, 1, 0, 1, 84615, 2, 0, 1, 84515, 1, 0, 1, 84563, 1, 0, 1, 84521, 1, 0, 1,
    1856, 1, 14, 2, 2, 2, 0, 1, 95, 1, 0, 1, 84613, 1, 0, 1, 70767, 1, 2, 2, 2, 7, 0, 1, 2, 6, 2, 2, 2, 29, 0, 1, 2,
    22316, 25, 1, 64, 1222, 39, 1, 80, 137, 35, 1, 80, 157, 10, 1, 78, 2, 14, 1, 78, 2, 6, 1, 78, 2, 1, 1, 78, 1771,
    50, 1, 128, 3054, 31, 1, 64, 21889, 31, 1, 64, 31393, 33, 1, 68]

def lowercase (c : Char) : List Char :=
  if c.toNat < 0x80 then [c.toLower]
  else if c.toNat == 0x130 then ['i', Char.ofNat 0x307]
  else match caseRuns.find? (·.covers c) with
    | some r => [Char.ofNat (c.toNat + r.shift).toNat]
    | none => [c]

end InlineMarkup
