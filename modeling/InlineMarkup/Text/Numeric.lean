import InlineMarkup.Text.Alphabetic

/-!
The digits and other numeric characters of Unicode, and the characters a word is made of.
-/
namespace InlineMarkup

def decimalRanges : CodeRanges :=
  .stretches 0x80 (packedNumbers "s+.S%.T:.Y4.RB.RB.RB.RB.RB.RB.RB.RB.RB.R+.RB.Q>.V2.Q>.|2.J.VH.RL.SF.).T).QN.S%.).cY>.`6.J.T:.:.QN.Y.
.Z~6.q).QU>.c8.RL.Q4.S0.V2.WF.RB.X:.R2.R2.Y>.R2.b..U>.Q>.ZV2.QN.S%._`!Q)QYH.Y>.uJ.Re).")

def numericRanges : CodeRanges :=
  .stretches 0x80 (packedNumbers "Q)%($%&qE.S%.T:.Y4.RB.')R8.RB.RB.%)R:1R?.+*R3.R4**7R9.R+.RB.Q>8V'.Q>.a38e$&U7.).:.VH.RL/SE.).T).QN.S
%.).hF$&)).T:Q*%(a:Q4QF:_2Bp9$bA$=,2&WG'S).B+$3D.K3`[0.T0.W0)S:.J.T:.:.QN.Y..Z~6.[,Q$0Q15%WE?H'A$+$S%(T>.f6+=*K,
QC(:)S@%%4%Q%Q8,Q+%B&QC(R4+<+M*W:)Q'.VBCS>.N'R<*S%BRL.Q4.S0.*8UC.WF.RB.X:.R2.R20Y<7R(.b.AU*.Q>.])9i/R;YZM.QN.S%.
$*c);^[98R8=j,Q)QYH.Y>.rE,RL.bOQ3$&$'QDQ$$3fJ1Qd3.")

def isAsciiDigit (c : Char) : Bool := decide ('0' ≤ c) && decide (c ≤ '9')

def isDecimalDigit (c : Char) : Bool :=
  if c.toNat < 0x80 then isAsciiDigit c else decimalRanges.covers c

def decimalValue? (c : Char) : Option Nat :=
  if isAsciiDigit c then some (c.toNat - '0'.toNat)
  else (decimalRanges.find? fun r => decide (r.1 ≤ c.toNat) && decide (c.toNat ≤ r.2)).map
    fun r => (c.toNat - r.1) % 10

/-- A character that may follow the first one of a name: a letter, a numeric character or an
underscore. -/
def isWordChar (c : Char) : Bool :=
  if c.toNat < 0x80 then isAsciiLetter c || isAsciiDigit c || c == '_'
  else isAlphabetic c || numericRanges.covers c

end InlineMarkup
