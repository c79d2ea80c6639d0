import InlineMarkup.Text.Basic

/-!
Moments in time: a day of the Gregorian calendar and a time of day, to the second, and the texts
they are written as.
-/
namespace InlineMarkup.Element

structure Moment where
  year : Nat
  month : Nat
  day : Nat
  hour : Nat
  minute : Nat
  second : Nat
  deriving DecidableEq, Repr

namespace Moment

/-! ### The calendar -/

def isLeap (year : Nat) : Bool := year % 4 == 0 && (year % 100 != 0 || year % 400 == 0)

def daysIn (year month : Nat) : Nat :=
  if month = 2 then if isLeap year then 29 else 28
  else if month = 4 ∨ month = 6 ∨ month = 9 ∨ month = 11 then 30
  else 31

def of? (y mo d h mi s : Int) : Option Moment :=
  if 1 ≤ y ∧ y ≤ 9999 ∧ 1 ≤ mo ∧ mo ≤ 12 ∧ 1 ≤ d ∧ d ≤ daysIn y.toNat mo.toNat ∧
      0 ≤ h ∧ h ≤ 23 ∧ 0 ≤ mi ∧ mi ≤ 59 ∧ 0 ≤ s ∧ s ≤ 59 then
    some ⟨y.toNat, mo.toNat, d.toNat, h.toNat, mi.toNat, s.toNat⟩
  else none

def ofFields? : List Int → Option Moment
  | y :: mo :: d :: time =>
    match time with
    | [] => of? y mo d 0 0 0
    | [h] => of? y mo d h 0 0
    | [h, mi] => of? y mo d h mi 0
    | [h, mi, s] => of? y mo d h mi s
    | _ => none
  | _ => none

def dayNumber (m : Moment) : Nat :=
  let past := m.year - 1
  365 * past + past / 4 - past / 100 + past / 400 +
    (List.range (m.month - 1)).foldl (fun n i => n + daysIn m.year (i + 1)) 0 + m.day

def weekday (m : Moment) : Nat := (m.dayNumber + 6) % 7

/-! ### Texts -/

def padded (width n : Nat) : Text :=
  let digits := Text.ofNat n
  List.replicate (width - digits.length) '0' ++ digits

def clock (m : Moment) : Text :=
  padded 2 m.hour ++ [':'] ++ padded 2 m.minute ++ [':'] ++ padded 2 m.second

def text (m : Moment) : Text :=
  padded 4 m.year ++ ['-'] ++ padded 2 m.month ++ ['-'] ++ padded 2 m.day ++ [' '] ++ m.clock

def quoted (m : Moment) : Text :=
  let parts := [m.year, m.month, m.day, m.hour, m.minute] ++
    if m.second = 0 then [] else [m.second]
  "datetime.datetime(".toList ++ Text.join [',', ' '] (parts.map Text.ofNat) ++ [')']

def dayNames : List Text :=
  ["Mon", "Tue", "Wed", "Thu", "Fri", "Sat", "Sun"].map String.toList

def monthNames : List Text :=
  ["Jan", "Feb", "Mar", "Apr", "May", "Jun", "Jul", "Aug", "Sep", "Oct", "Nov", "Dec"].map
    String.toList

def stamp (m : Moment) : Text :=
  dayNames.getD m.weekday [] ++ [',', ' '] ++ padded 2 m.day ++ [' '] ++
    monthNames.getD (m.month - 1) [] ++ [' '] ++ Text.ofNat m.year ++ [' '] ++ m.clock ++
    " GMT".toList

end Moment

end InlineMarkup.Element
