import NetArray.Fault

/-!
# Names

Names are numbered in the order in which they first occur, and everything else refers to a name by its
number. The table also hands out fresh names `stem_0`, `stem_1`, … : each stem remembers where it
stopped, and a name that is already there by other means is passed over. Neither the numbers of names nor
those of a stem are bounded.

* `Names.intern` numbers a name, `Names.text` gives the name behind a number.
* `Names.fresh` makes a name that was not there before.
-/

namespace NetArray

/-- A name, by its number. -/
structure Ident where
  index : Nat
  deriving DecidableEq, Repr

/-- A table of names. -/
structure Names where
  /-- The names, in the order in which they first occurred. -/
  table : Array String := #[]
  /-- For each stem that fresh names were made of, the next number to try; the latest entry counts. -/
  counters : List (String × Nat) := []
  deriving DecidableEq, Repr

namespace Names

/-- The number of a name that is in the table. -/
def find? (names : Names) (text : String) : Option Ident :=
  (names.table.idxOf? text).map Ident.mk

/-- The number of a name, which is added to the table if it is new. -/
def intern (names : Names) (text : String) : Ident × Names :=
  match names.find? text with
  | some ident => (ident, names)
  | none => (⟨names.table.size⟩, { names with table := names.table.push text })

/-- The name behind a number. -/
def text (names : Names) (ident : Ident) : Checked String :=
  match names.table[ident.index]? with
  | some text => .ok text
  | none => .error .unknownId

/-- The fresh name number `count` of a stem. -/
def numbered (stem : String) (count : Nat) : String :=
  stem ++ "_" ++ toString count

/-- The first number from `start` on whose name is not in the table, if it is among the first `tries`;
otherwise the number after those. -/
def firstFree (names : Names) (stem : String) : (tries start : Nat) → Nat
  | 0, start => start
  | tries + 1, start =>
    if (names.find? (numbered stem start)).isSome then
      names.firstFree stem tries (start + 1)
    else
      start

/-- The number that a stem tries next. -/
def counter (names : Names) (stem : String) : Nat :=
  (names.counters.lookup stem).getD 0

/-- A new name, made of a stem and a number. The names that are tried differ from each other, so if as
many as the table holds are taken, the next one is free. -/
def fresh (names : Names) (stem : String) : Ident × Names :=
  let count := names.firstFree stem names.table.size (names.counter stem)
  -- the latest entry of a stem hides the ones before it
  { names with counters := (stem, count + 1) :: names.counters }.intern (numbered stem count)

end Names

end NetArray
