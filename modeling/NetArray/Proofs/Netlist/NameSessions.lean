import Mathlib
import NetArray.Proofs.Netlist.FreshNames

/-!
# Sessions of a table of names

A session is a list of requests to a table of names that begins empty: names that are to be numbered, and stems that
fresh names are to be made of. Whoever asks sees the numbers that come back (`Names.replies`) and the names behind them.

A stem starts its search where its last one stopped, and never looks back. That this misses no free number is an
invariant of the table, `Names.Spent`: the numbers that a stem has passed are taken. Interning keeps it because names
stay, and a fresh name of any stem keeps it because the search passes only what is taken. A fresh name is therefore the
first of its stem that nobody had entered, whether it was entered as a name or made of a stem (`fresh_least`).
-/

namespace NetArray

namespace Names

variable {names names' : Names} {stem text : String} {request : Request} {requests : List Request}

/-! ### Numbers that are spent -/

/-- The numbers that a stem has passed belong to names of the table. -/
def Spent (names : Names) : Prop :=
  ∀ (stem : String) (number : Nat), number < names.counter stem → names.find? (numbered stem number) ≠ none

/-- A name that is found is found in a larger table. -/
theorem Grows.find?_ne_none (h : names.Grows names') (hfound : names.find? text ≠ none) :
    names'.find? text ≠ none :=
  fun hnone => hfound (h.find?_eq_none hnone)

/-- The search passes only numbers that are taken. -/
theorem find?_of_lt_firstFree {tries start number : Nat} (hstart : start ≤ number)
    (hnumber : number < names.firstFree stem tries start) : names.find? (numbered stem number) ≠ none := by
  induction tries generalizing start with
  | zero => exact absurd hnumber (Nat.not_lt_of_le hstart)
  | succ tries ih =>
    rw [firstFree] at hnumber
    split at hnumber
    · next htaken =>
      rcases Nat.eq_or_lt_of_le hstart with rfl | hlater
      · exact Option.ne_none_iff_isSome.mpr htaken
      · exact ih hlater hnumber
    · exact absurd hnumber (Nat.not_lt_of_le hstart)

/-- Below the number of the next fresh name everything is taken: what was passed before, and what the search passes. -/
theorem Spent.find?_of_lt_nextNumber (h : names.Spent) {number : Nat} (hnumber : number < names.nextNumber stem) :
    names.find? (numbered stem number) ≠ none := by
  rcases Nat.lt_or_ge number (names.counter stem) with hpassed | hsearched
  · exact h stem number hpassed
  · exact find?_of_lt_firstFree hsearched hnumber

/-- There are not more numbers below it than names. -/
theorem Spent.nextNumber_le (h : names.Spent) (stem : String) : names.nextNumber stem ≤ names.table.size := by
  obtain ⟨number, hnumber, hfree⟩ := names.exists_free stem 0
  rw [Nat.zero_add] at hfree
  exact (Nat.le_of_not_lt fun hlt => h.find?_of_lt_nextNumber hlt hfree).trans hnumber

theorem spent_empty : Spent {} := fun _ _ hnumber => absurd hnumber (Nat.not_lt_zero _)

theorem Spent.intern (h : names.Spent) (text : String) : (names.intern text).2.Spent := by
  intro stem number hnumber
  have hcounter : (names.intern text).2.counter stem = names.counter stem := by
    rcases names.intern_cases text with ⟨ident, -, hintern⟩ | ⟨-, hintern⟩
    · rw [hintern]
    · rw [hintern]
      rfl
  rw [hcounter] at hnumber
  exact (names.grows_intern text).find?_ne_none (h stem number hnumber)

theorem counter_fresh (names : Names) (stem other : String) : (names.fresh stem).2.counter other =
    if other = stem then names.nextNumber stem + 1 else names.counter other := by
  rw [fresh_eq]
  unfold counter
  rw [List.lookup_cons]
  by_cases hother : other = stem
  · rw [if_pos hother, beq_iff_eq.mpr hother]
    rfl
  · rw [if_neg hother, beq_false_of_ne hother]

theorem Spent.fresh (h : names.Spent) (stem : String) : (names.fresh stem).2.Spent := by
  intro other number hnumber
  have hgrows := names.grows_fresh stem
  rw [counter_fresh] at hnumber
  split at hnumber
  · next hother =>
    -- the last number that the stem passed is that of the name it has just got
    subst hother
    rcases Nat.lt_succ_iff_lt_or_eq.mp hnumber with hpassed | rfl
    · exact hgrows.find?_ne_none (h.find?_of_lt_nextNumber hpassed)
    · exact find?_ne_none (names.text_fresh other)
  · exact hgrows.find?_ne_none (h other number hnumber)

/-- **One request.** Whatever is asked, only what is taken was passed. -/
theorem Spent.answer (h : names.Spent) (request : Request) : (names.answer request).Spent := by
  cases request with
  | intern text => exact h.intern text
  | fresh stem => exact h.fresh stem

/-! ### What is seen of a session -/

/-- The number that a request is answered with. -/
def reply (names : Names) : Request → Ident
  | .intern text => (names.intern text).1
  | .fresh stem => (names.fresh stem).1

/-- The numbers that requests are answered with, one after the other. -/
def replies (names : Names) : List Request → List Ident
  | [] => []
  | request :: requests => names.reply request :: (names.answer request).replies requests

/-- A request was answered with a number that the name is behind. -/
def Entered (requests : List Request) (text : String) : Prop :=
  ∃ ident ∈ replies {} requests, (after requests).text ident = .ok text

theorem after_append (earlier later : List Request) : after (earlier ++ later) = later.foldl answer (after earlier) :=
  List.foldl_append

theorem after_concat (requests : List Request) (request : Request) :
    after (requests ++ [request]) = (after requests).answer request :=
  after_append ..

/-- The session goes on after a request. -/
theorem grows_after (earlier : List Request) (request : Request) (later : List Request) :
    ((after earlier).answer request).Grows (after (earlier ++ request :: later)) := by
  rw [after_append]
  exact grows_foldl_answer _ later

theorem replies_append (names : Names) (earlier later : List Request) :
    names.replies (earlier ++ later) = names.replies earlier ++ (earlier.foldl answer names).replies later := by
  induction earlier generalizing names with
  | nil => rfl
  | cons request earlier ih => exact congrArg _ (ih _)

theorem replies_concat (requests : List Request) (request : Request) :
    replies {} (requests ++ [request]) = replies {} requests ++ [(after requests).reply request] :=
  replies_append ..

/-- A request is answered with a number that has a name. -/
theorem lt_reply (names : Names) (request : Request) :
    (names.reply request).index < (names.answer request).table.size := by
  cases request with
  | intern text => exact names.lt_intern text
  | fresh stem => exact lt_of_text (names.text_fresh stem)

/-- The names of the table are those from before and the name behind the answer. -/
theorem find?_answer (h : (names.answer request).find? text ≠ none) :
    names.find? text ≠ none ∨ (names.answer request).text (names.reply request) = .ok text := by
  -- a name that is pushed is behind the last number
  have hpush {pushed : String} {counters : List (String × Nat)}
      (h : find? ⟨names.table.push pushed, counters⟩ text ≠ none) :
      names.find? text ≠ none ∨ pushed = text := by
    rw [Ne, find?_eq_none_iff, not_not, Array.mem_push] at h
    rw [Ne, find?_eq_none_iff, not_not]
    exact h.imp_right Eq.symm
  cases request with
  | intern entered =>
    rcases names.intern_cases entered with ⟨ident, -, hintern⟩ | ⟨-, hintern⟩
    · rw [answer, hintern] at h
      exact .inl h
    · have htext := names.text_intern entered
      change names.find? text ≠ none ∨ (names.intern entered).2.text (names.intern entered).1 = .ok text
      rw [htext]
      rw [answer, hintern] at h
      exact (hpush h).imp_right (congrArg _)
  | fresh stem =>
    change names.find? text ≠ none ∨ (names.fresh stem).2.text (names.fresh stem).1 = .ok text
    rw [names.text_fresh stem]
    rw [answer, fresh_eq] at h
    exact (hpush h).imp_right (congrArg _)

theorem size_answer_le (names : Names) (request : Request) :
    (names.answer request).table.size ≤ names.table.size + 1 := by
  cases request with
  | intern text =>
    change (names.intern text).2.table.size ≤ _
    rcases names.intern_cases text with ⟨ident, -, hintern⟩ | ⟨-, hintern⟩
    · rw [hintern]
      exact Nat.le_succ _
    · rw [hintern]
      exact (Array.size_push _).le
  | fresh stem =>
    change (names.fresh stem).2.table.size ≤ _
    rw [fresh_eq]
    exact (Array.size_push _).le

/-! ### Whole sessions -/

/-- **Any session.** Only what is taken was passed. -/
theorem spent_after (requests : List Request) : (after requests).Spent := by
  induction requests using List.reverseRecOn with
  | nil => exact spent_empty
  | append_singleton requests request ih =>
    rw [after_concat]
    exact ih.answer request

/-- There is at most one name for each request. -/
theorem size_after_le (requests : List Request) : (after requests).table.size ≤ requests.length := by
  induction requests using List.reverseRecOn with
  | nil => exact le_rfl
  | append_singleton requests request ih =>
    rw [after_concat, List.length_append, List.length_singleton]
    exact (size_answer_le _ request).trans (Nat.add_le_add_right ih 1)

theorem lt_of_mem_replies {ident : Ident} (h : ident ∈ replies {} requests) :
    ident.index < (after requests).table.size := by
  induction requests using List.reverseRecOn with
  | nil => cases h
  | append_singleton requests request ih =>
    rw [replies_concat, List.mem_append, List.mem_singleton] at h
    rw [after_concat]
    rcases h with hold | rfl
    · exact (grows_answer _ request).lt (ih hold)
    · exact lt_reply _ request

/-- The names of the table are those that requests were answered with. -/
theorem entered_iff : Entered requests text ↔ (after requests).find? text ≠ none := by
  constructor
  · rintro ⟨ident, -, htext⟩
    exact find?_ne_none htext
  · intro hfound
    induction requests using List.reverseRecOn with
    | nil => exact absurd (find?_eq_none_iff.mpr (Array.not_mem_empty text)) hfound
    | append_singleton requests request ih =>
      rw [Entered, replies_concat, after_concat]
      rw [after_concat] at hfound
      rcases find?_answer hfound with hold | hnew
      · obtain ⟨ident, hmem, htext⟩ := ih hold
        exact ⟨ident, List.mem_append_left _ hmem, (grows_answer _ request).text htext⟩
      · exact ⟨_, List.mem_append_right _ (List.mem_singleton_self _), hnew⟩

/-- **Fresh names are new and minimal.** In any session a name that is entered is behind its number for good, and two
names have the same number only if they are the same. A fresh number was not given before. The name behind it, for good,
is that of the first number of the stem whose name nobody had entered, which is found after no more tries than there
were requests. -/
theorem fresh_least (earlier : List Request) :
    (∀ (text : String) (later : List Request),
      (after (earlier ++ .intern text :: later)).text ((after earlier).intern text).1 = .ok text) ∧
    (∀ (text : String) (between : List Request) (text' : String),
      ((after earlier).intern text).1 = ((after (earlier ++ .intern text :: between)).intern text').1 ↔
        text = text') ∧
    ∀ stem : String, ((after earlier).fresh stem).1 ∉ replies {} earlier ∧
      ∃ number ≤ earlier.length,
        (∀ later : List Request, (after (earlier ++ .fresh stem :: later)).text ((after earlier).fresh stem).1
          = .ok (numbered stem number)) ∧
        ¬Entered earlier (numbered stem number) ∧
        ∀ smaller < number, Entered earlier (numbered stem smaller) := by
  have hintern (text : String) (later : List Request) :
      (after (earlier ++ .intern text :: later)).text ((after earlier).intern text).1 = .ok text :=
    (grows_after earlier (.intern text) later).text ((after earlier).text_intern text)
  refine ⟨hintern, fun text between text' => ?_, fun stem => ⟨fun hmem => ?_, ?_⟩⟩
  · -- both names are looked up in the table after the second one
    set middle := after (earlier ++ .intern text :: between)
    have hfirst : (middle.intern text').2.text ((after earlier).intern text).1 = .ok text :=
      (middle.grows_intern text').text (hintern text between)
    have hsecond := middle.text_intern text'
    constructor
    · intro hsame
      rw [hsame] at hfirst
      exact Except.ok.inj (hfirst.symm.trans hsecond)
    · rintro rfl
      exact ((middle.grows_intern text).distinct (distinct_after _)).ident_eq hfirst hsecond
  · -- a fresh number is the next one of the table, and the numbers that were given are numbers of the table
    have hlt := lt_of_mem_replies hmem
    rw [fresh_eq] at hlt
    exact lt_irrefl _ hlt
  · have hspent := spent_after earlier
    refine ⟨(after earlier).nextNumber stem, (hspent.nextNumber_le stem).trans (size_after_le earlier),
      fun later => ?_, ?_, fun smaller hsmaller => ?_⟩
    · exact (grows_after earlier (.fresh stem) later).text ((after earlier).text_fresh stem)
    · rw [entered_iff, not_not]
      exact (after earlier).find?_nextNumber stem
    · exact entered_iff.mpr (hspent.find?_of_lt_nextNumber hsmaller)

end Names

end NetArray
