import NetArray.Proofs.Netlist.Reloading
import NetArray.Proofs.Netlist.TypeGrowth
import Mathlib

/-!
# Interned types

The ids that a type table hands out depend on the types that were interned and on their order, and on
nothing else. The table itself takes one of three ways to an id: it remembers it, it finds the type among
its types, or it adds the type. A table that was stored and read back remembers nothing and takes the
second way where the original would have taken the first.

* `Records` says that a table is what is left of the types that were interned in it: each once, in the order
  in which they first came, whatever the table remembers of them.
* `place` is the id that this gives a type. An operation finds the same ids in any two tables that record
  the same past (`Records.intern`, `array_determined`, `serve_determined`).
* `Runs` carries this through a list of requests, with reloads among them and without.
* `reloads_keep_ids` is the result.
-/

namespace NetArray

open Json

/-! ### Reading what was written

`Json.Recovers` says when reading succeeds. Where it succeeds, it gives what was written. -/

private theorem word_ofNat_eq {n m : Nat} (h : (ofNat n).word? = some m) : m = n := by
  simp only [ofNat, word?] at h
  split at h
  · exact (Option.some.inj h).symm
  · cases h

private theorem DataType.ofJson_toJson_eq {type read : DataType}
    (h : DataType.ofJson? type.toJson = some read) : read = type := by
  cases type with
  | bits width =>
    rw [DataType.toJson, DataType.ofJson_bits] at h
    obtain ⟨word, hword, heq⟩ := Option.bind_eq_some_iff.mp h
    rw [← Option.some.inj heq, word_ofNat_eq hword]
  | array element size =>
    rw [DataType.toJson, DataType.ofJson_array] at h
    obtain ⟨id, hid, h⟩ := Option.bind_eq_some_iff.mp h
    obtain ⟨word, hword, heq⟩ := Option.bind_eq_some_iff.mp h
    obtain ⟨index, hindex, rfl⟩ := Option.map_eq_some_iff.mp hid
    rw [← Option.some.inj heq, word_ofNat_eq hword, word_ofNat_eq hindex]

private theorem DataType.ofJson_map_toJson_eq {types read : List DataType}
    (h : (types.map DataType.toJson).mapM DataType.ofJson? = some read) : read = types := by
  induction types generalizing read with
  | nil => exact (Option.some.inj h).symm
  | cons type types ih =>
    rw [List.map_cons, List.mapM_cons] at h
    obtain ⟨type', htype, h⟩ := Option.bind_eq_some_iff.mp h
    obtain ⟨types', htypes, heq⟩ := Option.bind_eq_some_iff.mp h
    rw [← Option.some.inj heq, DataType.ofJson_toJson_eq htype, ih htypes]

namespace TypeTable

/-- A table that is read back has the types of the table that was stored, and remembers nothing. -/
theorem ofJson_toJson_eq {table loaded : TypeTable}
    (h : TypeTable.ofJson? table.toJson = some loaded) : loaded = { types := table.types } := by
  rw [TypeTable.toJson, TypeTable.ofJson_object] at h
  obtain ⟨types, htypes, heq⟩ := Option.bind_eq_some_iff.mp h
  rw [← Option.some.inj heq, DataType.ofJson_map_toJson_eq htypes]

/-! ### Requests -/

/-- What may be asked of a type table. -/
inductive Request where
  | bits (width : Nat)
  | array (element : TypeId) (dims : List Nat)
  | intern (type : DataType)
  /-- The table is stored and read back. -/
  | reload
  deriving DecidableEq, Repr

/-- The numbers of a request have 32 bits. The element of an array may be any id, also one of no type. -/
def Request.Fits : Request → Prop
  | .bits width => width < wordBound
  | .array element dims => element.index < wordBound ∧ ∀ size ∈ dims, size < wordBound
  | .intern type => type.Storable
  | .reload => True

instance : DecidablePred Request.Fits
  | .bits width => inferInstanceAs (Decidable (width < wordBound))
  | .array element dims =>
    inferInstanceAs (Decidable (element.index < wordBound ∧ ∀ size ∈ dims, size < wordBound))
  | .intern type => inferInstanceAs (Decidable type.Storable)
  | .reload => isTrue trivial

/-- What is seen of a table that serves requests. -/
structure Transcript where
  /-- The ids that were returned. -/
  ids : List TypeId := []
  /-- The types that were interned and the ids that they got. An array of several dimensions stands here
  with one type for each of them, the outermost last. -/
  interned : List (DataType × TypeId) := []
  deriving DecidableEq, Repr

namespace Transcript

def types (transcript : Transcript) : List DataType :=
  transcript.interned.map Prod.fst

def append (first second : Transcript) : Transcript :=
  ⟨first.ids ++ second.ids, first.interned ++ second.interned⟩

@[simp] theorem types_append (first second : Transcript) :
    (first.append second).types = first.types ++ second.types :=
  List.map_append

end Transcript

/-- The types that are interned for a nested array, the innermost first. -/
def nested (table : TypeTable) (element : TypeId) : List Nat → List (DataType × TypeId)
  | [] => []
  | size :: dims =>
    table.nested element dims ++
      [(.array (table.array element dims).1 size, (table.array element (size :: dims)).1)]

/-- Serves one request. A reload fails on a number that the format has no room for. -/
def serve (table : TypeTable) : Request → Option (Transcript × TypeTable)
  | .bits width =>
    let (id, next) := table.bits width
    some (⟨[id], [(.bits width, id)]⟩, next)
  | .array element dims =>
    let (id, next) := table.array element dims
    some (⟨[id], table.nested element dims⟩, next)
  | .intern type =>
    let (id, next) := table.intern type
    some (⟨[id], [(type, id)]⟩, next)
  | .reload => do
    let next ← TypeTable.ofJson? table.toJson
    return ({}, next)

/-- Serves requests one after the other. -/
def serveAll (table : TypeTable) : List Request → Option (Transcript × TypeTable)
  | [] => some ({}, table)
  | request :: requests => do
    let (answer, next) ← table.serve request
    let (rest, last) ← next.serveAll requests
    return (answer.append rest, last)

theorem serveAll_cons_eq_some {table last : TypeTable} {request : Request} {requests : List Request}
    {transcript : Transcript} :
    table.serveAll (request :: requests) = some (transcript, last) ↔
      ∃ answer next rest, table.serve request = some (answer, next) ∧
        next.serveAll requests = some (rest, last) ∧ transcript = answer.append rest := by
  simp only [serveAll, Option.bind_eq_bind, Option.bind_eq_some_iff, Option.pure_def, Prod.exists,
    Option.some.injEq, Prod.mk.injEq]
  constructor
  · rintro ⟨answer, next, hserve, rest, last', hrest, rfl, rfl⟩
    exact ⟨answer, next, rest, hserve, hrest, rfl⟩
  · rintro ⟨answer, next, rest, hserve, hrest, rfl⟩
    exact ⟨answer, next, hserve, rest, last, hrest, rfl, rfl⟩

theorem serveAll_append_eq_some {table last : TypeTable} {before after : List Request}
    {transcript : Transcript} (h : table.serveAll (before ++ after) = some (transcript, last)) :
    ∃ earlier middle later, table.serveAll before = some (earlier, middle) ∧
      middle.serveAll after = some (later, last) := by
  induction before generalizing table transcript with
  | nil => exact ⟨{}, table, transcript, rfl, h⟩
  | cons request before ih =>
    obtain ⟨answer, next, rest, hserve, hrest, -⟩ := serveAll_cons_eq_some.mp h
    obtain ⟨earlier, middle, later, hearlier, hlater⟩ := ih hrest
    exact ⟨answer.append earlier, middle, later,
      serveAll_cons_eq_some.mpr ⟨answer, next, earlier, hserve, hearlier, rfl⟩, hlater⟩

/-! ### What a table records -/

private theorem eraseDups_concat (past : List DataType) (type : DataType) :
    (past ++ [type]).eraseDups =
      if type ∈ past then past.eraseDups else past.eraseDups ++ [type] := by
  rw [List.eraseDups_append]
  split
  · next hmem => simp [List.removeAll, hmem]
  · next hnew => simp [List.removeAll, hnew, List.eraseDups_cons]

private theorem nodup_eraseDups (past : List DataType) : past.eraseDups.Nodup := by
  induction past using List.reverseRecOn with
  | nil => exact List.nodup_nil
  | append_singleton past type ih =>
    rw [eraseDups_concat]
    split
    · exact ih
    · next hnew =>
      rw [← List.concat_eq_append]
      exact ih.concat (mt List.mem_eraseDups.mp hnew)

/-- The table has the types that were interned, each once, in the order in which they first came. -/
structure Records (table : TypeTable) (past : List DataType) : Prop where
  sound : table.Sound
  types : table.types.toList = past.eraseDups

/-- The id of a type among those that were interned. -/
def place (past : List DataType) (type : DataType) : TypeId :=
  ⟨past.eraseDups.idxOf type⟩

theorem place_append {past more : List DataType} {type : DataType} (h : type ∈ past) :
    place (past ++ more) type = place past type := by
  unfold place
  rw [List.eraseDups_append, List.idxOf_append_of_mem (List.mem_eraseDups.mpr h)]

theorem records_empty : Records {} [] :=
  ⟨sound_empty, rfl⟩

namespace Records

variable {table other : TypeTable} {past more : List DataType} {type : DataType}

theorem mem (h : table.Records past) : type ∈ table.types ↔ type ∈ past := by
  rw [← Array.mem_toList_iff, h.types, List.mem_eraseDups]

theorem getElem? (h : table.Records past) (index : Nat) :
    table.types[index]? = past.eraseDups[index]? := by
  rw [← h.types, Array.getElem?_toList]

theorem size (h : table.Records past) : table.size = past.eraseDups.length := by
  rw [← h.types, Array.length_toList, TypeTable.size]

/-- The place of a type is where the table has it. -/
theorem get_iff (h : table.Records past) {id : TypeId} :
    table.get id = .ok type ↔ type ∈ past ∧ id = place past type := by
  rw [get_eq_ok, h.getElem?]
  constructor
  · intro hget
    obtain ⟨hlt, rfl⟩ := List.getElem?_eq_some_iff.mp hget
    refine ⟨List.mem_eraseDups.mp (List.getElem_mem hlt), ?_⟩
    rw [place, (nodup_eraseDups past).idxOf_getElem]
  · rintro ⟨hmem, rfl⟩
    exact List.getElem?_idxOf (List.mem_eraseDups.mpr hmem)

theorem grows (h : table.Records past) (h' : other.Records (past ++ more)) : Grows table other := by
  intro index type hget
  rw [h.getElem?] at hget
  rw [h'.getElem?, List.eraseDups_append, List.getElem?_append_left, hget]
  exact (List.getElem?_eq_some_iff.mp hget).1

theorem types_intern (h : table.Records past) (type : DataType) :
    (table.intern type).2.types.toList = (past ++ [type]).eraseDups := by
  rw [eraseDups_concat]
  unfold TypeTable.intern
  split
  · -- remembered: the table is sound, so the type is among its types
    next id hlookup =>
    obtain ⟨earlier, later, hknown, -⟩ := List.lookup_eq_some_iff.mp hlookup
    have hget : table.types[id.index]? = some type := h.sound.known (by rw [hknown]; simp)
    rw [if_pos (h.mem.mp (Array.mem_of_getElem? hget))]
    exact h.types
  · split
    · -- found: only what the table remembers changes
      next position hposition =>
      rw [if_pos (h.mem.mp (Array.mem_of_getElem? (getElem?_of_idxOf? hposition)))]
      exact h.types
    · -- new, for the table and for the past alike
      next hnone =>
      rw [if_neg (mt h.mem.mpr (Array.idxOf?_eq_none_iff.mp hnone))]
      exact (Array.toList_push ..).trans (congrArg (· ++ [type]) h.types)

/-- **One interning.** Whichever way the table takes, the type is recorded and the id is its place. -/
theorem intern (h : table.Records past) (hword : ∀ width, type = .bits width → width < wordBound) :
    (table.intern type).2.Records (past ++ [type]) ∧
      (table.intern type).1 = place (past ++ [type]) type := by
  obtain ⟨hsound, hget⟩ := h.sound.intern hword
  have hrecords : (table.intern type).2.Records (past ++ [type]) := ⟨hsound, h.types_intern type⟩
  exact ⟨hrecords, (hrecords.get_iff.mp (get_eq_ok.mpr hget)).2⟩

/-- What a table remembers is no part of what it records. -/
theorem forget (h : table.Records past) : Records { types := table.types } past where
  sound := ⟨fun hknown => absurd hknown List.not_mem_nil, h.sound.word⟩
  types := h.types

end Records

/-! ### What a request adds -/

theorem length_eraseDups_le (past more : List DataType) :
    past.eraseDups.length ≤ (past ++ more).eraseDups.length := by
  rw [List.eraseDups_append, List.length_append]
  exact Nat.le_add_right _ _

/-- While ids have 32 bits, the types can be stored. -/
def Loadable (past : List DataType) : Prop :=
  past.eraseDups.length ≤ wordBound → ∀ type ∈ past, type.Storable

theorem loadable_nil : Loadable [] :=
  fun _ _ h => absurd h List.not_mem_nil

theorem Loadable.concat {past : List DataType} (h : Loadable past) {type : DataType}
    (htype : (past ++ [type]).eraseDups.length ≤ wordBound → type.Storable) :
    Loadable (past ++ [type]) := by
  intro hle
  rw [List.forall_mem_append, List.forall_mem_singleton]
  exact ⟨h ((length_eraseDups_le _ _).trans hle), htype hle⟩

/-- The entries have the places of their types for ids, and their types can be stored. -/
structure Follows (past : List DataType) (entries : List (DataType × TypeId)) : Prop where
  numbered : ∀ entry ∈ entries, entry.2 = place (past ++ entries.map Prod.fst) entry.1
  loadable : Loadable past → Loadable (past ++ entries.map Prod.fst)

namespace Follows

variable {past : List DataType} {entries entries' : List (DataType × TypeId)} {type : DataType}

theorem nil (past : List DataType) : Follows past [] where
  numbered _ h := absurd h List.not_mem_nil
  loadable h := by rwa [List.map_nil, List.append_nil]

theorem one (h : (past ++ [type]).eraseDups.length ≤ wordBound → type.Storable) :
    Follows past [(type, place (past ++ [type]) type)] where
  numbered entry hentry := by
    rw [List.mem_singleton.mp hentry]
    rfl
  loadable hpast := hpast.concat h

theorem append (h : Follows past entries) (h' : Follows (past ++ entries.map Prod.fst) entries') :
    Follows past (entries ++ entries') := by
  have htypes : past ++ (entries ++ entries').map Prod.fst =
      past ++ entries.map Prod.fst ++ entries'.map Prod.fst := by
    rw [List.map_append, List.append_assoc]
  refine ⟨fun entry hentry => ?_, fun hpast => ?_⟩
  · rw [htypes]
    rcases List.mem_append.mp hentry with hfirst | hsecond
    · have hmem : entry.1 ∈ past ++ entries.map Prod.fst :=
        List.mem_append_right _ (List.mem_map_of_mem hfirst)
      rw [place_append hmem]
      exact h.numbered entry hfirst
    · exact h'.numbered entry hsecond
  · rw [htypes]
    exact h'.loadable (h.loadable hpast)

end Follows

/-- The id of a nested array and the types that are interned for it depend on the past alone. -/
theorem array_determined (past : List DataType) {element : TypeId} {dims : List Nat}
    (helement : element.index < wordBound) (hdims : ∀ size ∈ dims, size < wordBound) :
    ∃ id entries, Follows past entries ∧
      ((past ++ entries.map Prod.fst).eraseDups.length ≤ wordBound → id.index < wordBound) ∧
      ∀ table : TypeTable, table.Records past →
        (table.array element dims).1 = id ∧ table.nested element dims = entries ∧
          (table.array element dims).2.Records (past ++ entries.map Prod.fst) := by
  -- the innermost sizes are interned first, so the induction hypothesis is about the table in between
  induction dims with
  | nil =>
    refine ⟨element, [], .nil past, fun _ => helement, fun table h => ⟨rfl, rfl, ?_⟩⟩
    rw [List.map_nil, List.append_nil]
    exact h
  | cons size dims ih =>
    rw [List.forall_mem_cons] at hdims
    obtain ⟨inner, entries, hfollows, hinner, htables⟩ := ih hdims.2
    -- the outer array is one more type, whose element is the inner array
    have hstorable : (past ++ entries.map Prod.fst ++ [DataType.array inner size]).eraseDups.length ≤
        wordBound → (DataType.array inner size).Storable := fun hle =>
      ⟨hinner ((length_eraseDups_le _ _).trans hle), hdims.1⟩
    have htypes (id : TypeId) :
        past ++ (entries ++ [(DataType.array inner size, id)]).map Prod.fst =
          past ++ entries.map Prod.fst ++ [DataType.array inner size] := by
      rw [List.map_append, List.append_assoc]
      rfl
    refine ⟨place (past ++ entries.map Prod.fst ++ [.array inner size]) (.array inner size), _,
      hfollows.append (.one hstorable), fun hle => ?_, fun table h => ?_⟩
    · -- its id is a place among the recorded types
      rw [htypes] at hle
      exact (List.idxOf_lt_length_of_mem (List.mem_eraseDups.mpr (by simp))).trans_le hle
    · obtain ⟨hid, hentries, hrecords⟩ := htables table h
      have hword : ∀ width, DataType.array inner size = .bits width → width < wordBound :=
        fun _ heq => nomatch heq
      obtain ⟨hnext, hplace⟩ := hrecords.intern hword
      have harray : table.array element (size :: dims) =
          (table.array element dims).2.intern (.array inner size) := by rw [← hid]; rfl
      rw [nested, harray, hid, hentries, hplace, htypes]
      exact ⟨rfl, rfl, hnext⟩

/-- **One request.** Any two tables that record the same past give the same answer, and record it. -/
theorem serve_determined (past : List DataType) {request : Request} (hfits : request.Fits)
    (hstay : request ≠ .reload) :
    ∃ answer : Transcript, Follows past answer.interned ∧
      ∀ table : TypeTable, table.Records past →
        ∃ next, table.serve request = some (answer, next) ∧ next.Records (past ++ answer.types) := by
  -- bits and other types are interned in the same way
  have hintern (type : DataType) (htype : type.Storable) :
      Follows past [(type, place (past ++ [type]) type)] ∧ ∀ table : TypeTable, table.Records past →
        table.intern type = (place (past ++ [type]) type, (table.intern type).2) ∧
          (table.intern type).2.Records (past ++ [type]) := by
    have hword : ∀ width, type = .bits width → width < wordBound := by
      rintro width rfl
      exact htype
    refine ⟨.one fun _ => htype, fun table h => ?_⟩
    obtain ⟨hnext, hplace⟩ := h.intern hword
    exact ⟨Prod.ext hplace rfl, hnext⟩
  cases request with
  | bits width =>
    obtain ⟨hfollows, htables⟩ := hintern (.bits width) hfits
    refine ⟨⟨[place (past ++ [.bits width]) (.bits width)], _⟩, hfollows,
      fun table h => ⟨_, ?_, (htables table h).2⟩⟩
    rw [serve, bits, (htables table h).1]
  | array element dims =>
    obtain ⟨id, entries, hfollows, -, htables⟩ := array_determined past hfits.1 hfits.2
    refine ⟨⟨[id], entries⟩, hfollows, fun table h => ⟨(table.array element dims).2, ?_, ?_⟩⟩
    · rw [← (htables table h).1, ← (htables table h).2.1]
      rfl
    · exact (htables table h).2.2
  | intern type =>
    obtain ⟨hfollows, htables⟩ := hintern type hfits
    refine ⟨⟨[place (past ++ [type]) type], _⟩, hfollows,
      fun table h => ⟨_, ?_, (htables table h).2⟩⟩
    rw [serve, (htables table h).1]
  | reload => exact absurd rfl hstay

/-! ### Runs -/

/-- All tables that record `past` serve the requests with `transcript`, if they serve them; and they do
serve them while ids have 32 bits. -/
structure Runs (past : List DataType) (requests : List Request) (transcript : Transcript) : Prop where
  records : ∀ {table last : TypeTable} {transcript' : Transcript}, table.Records past →
    table.serveAll requests = some (transcript', last) →
      transcript' = transcript ∧ last.Records (past ++ transcript.types)
  serves : (past ++ transcript.types).eraseDups.length ≤ wordBound →
    ∀ table : TypeTable, table.Records past → ∃ last, table.serveAll requests = some (transcript, last)

namespace Runs

variable {past : List DataType} {requests : List Request} {answer transcript : Transcript}

theorem nil (past : List DataType) : Runs past [] {} where
  records h hserve := by
    cases hserve
    exact ⟨rfl, by rw [Transcript.types, List.map_nil, List.append_nil]; exact h⟩
  serves _ table _ := ⟨table, rfl⟩

theorem cons (h : Runs (past ++ answer.types) requests transcript) {request : Request}
    (hserve : ∀ table : TypeTable, table.Records past →
      ∃ next, table.serve request = some (answer, next) ∧ next.Records (past ++ answer.types)) :
    Runs past (request :: requests) (answer.append transcript) where
  records {table last transcript'} htable hrun := by
    obtain ⟨answer', next, rest, hanswer, hrest, rfl⟩ := serveAll_cons_eq_some.mp hrun
    obtain ⟨next', hserve', hnext⟩ := hserve table htable
    cases hanswer.symm.trans hserve'
    obtain ⟨rfl, hlast⟩ := h.records hnext hrest
    rw [Transcript.types_append, ← List.append_assoc]
    exact ⟨rfl, hlast⟩
  serves hle table htable := by
    rw [Transcript.types_append, ← List.append_assoc] at hle
    obtain ⟨next, hserve', hnext⟩ := hserve table htable
    obtain ⟨last, hlast⟩ := h.serves hle next hnext
    exact ⟨last, serveAll_cons_eq_some.mpr ⟨answer, next, transcript, hserve', hlast, rfl⟩⟩

/-- A reload costs the table its memory, which shows in nothing that follows. -/
theorem reload (h : Runs past requests transcript) (hpast : Loadable past) :
    Runs past (.reload :: requests) transcript where
  records {table last transcript'} htable hrun := by
    obtain ⟨answer, next, rest, hanswer, hrest, rfl⟩ := serveAll_cons_eq_some.mp hrun
    obtain ⟨loaded, hloaded, heq⟩ := Option.bind_eq_some_iff.mp hanswer
    cases heq
    -- what was read back is the table without its memory, which records the same past
    rw [ofJson_toJson_eq hloaded] at hrest
    exact h.records htable.forget hrest
  serves hle table htable := by
    have hstorable : ∀ type ∈ table.types, type.Storable := fun type htype =>
      hpast ((length_eraseDups_le _ _).trans hle) type (htable.mem.mp htype)
    have hserve : table.serve .reload = some ({}, { types := table.types }) := by
      rw [serve, ofJson_toJson hstorable]
      rfl
    obtain ⟨last, hlast⟩ := h.serves hle _ htable.forget
    exact ⟨last, serveAll_cons_eq_some.mpr ⟨{}, _, transcript, hserve, hlast, rfl⟩⟩

end Runs

/-- The requests with the reloads left out. -/
def Request.withoutReloads (requests : List Request) : List Request :=
  requests.filter (· ≠ .reload)

/-- **Any requests.** What is seen depends on the past alone, and reloads do not matter to it. -/
theorem serveAll_determined {requests : List Request} (hfits : ∀ request ∈ requests, request.Fits)
    {past : List DataType} (hpast : Loadable past) :
    ∃ transcript : Transcript, Follows past transcript.interned ∧ Runs past requests transcript ∧
      Runs past (Request.withoutReloads requests) transcript := by
  induction requests generalizing past with
  | nil => exact ⟨{}, .nil past, .nil past, .nil past⟩
  | cons request requests ih =>
    rw [List.forall_mem_cons] at hfits
    by_cases hreload : request = .reload
    · -- the past stays, so the rest is served from the same hypothesis
      obtain ⟨transcript, hfollows, hruns, hwithout⟩ := ih hfits.2 hpast
      rw [hreload]
      exact ⟨transcript, hfollows, hruns.reload hpast, hwithout⟩
    · obtain ⟨answer, hanswer, hserve⟩ := serve_determined past hfits.1 hreload
      obtain ⟨transcript, hfollows, hruns, hwithout⟩ := ih hfits.2 (hanswer.loadable hpast)
      have hkept : Request.withoutReloads (request :: requests) =
          request :: Request.withoutReloads requests :=
        List.filter_cons_of_pos (decide_eq_true hreload)
      rw [hkept]
      exact ⟨answer.append transcript, hanswer.append hfollows, hruns.cons hserve,
        hwithout.cons hserve⟩

/-- Without reloads nothing fails. -/
theorem serveAll_withoutReloads (table : TypeTable) (requests : List Request) :
    ∃ transcript last,
      table.serveAll (Request.withoutReloads requests) = some (transcript, last) := by
  induction requests generalizing table with
  | nil => exact ⟨{}, table, rfl⟩
  | cons request requests ih =>
    cases request with
    | reload => exact ih table
    | bits _ | array _ _ | intern _ =>
      obtain ⟨transcript, last, hrest⟩ := ih _
      exact ⟨_, last, serveAll_cons_eq_some.mpr ⟨_, _, transcript, rfl, hrest, rfl⟩⟩

/-- What a table owes to those who interned in it. -/
structure Canonical (transcript : Transcript) (table : TypeTable) : Prop where
  /-- An id names the type that it was given for. -/
  names : ∀ entry ∈ transcript.interned, table.get entry.2 = .ok entry.1
  /-- Two ids are equal where the types are. -/
  same : ∀ entry ∈ transcript.interned, ∀ entry' ∈ transcript.interned,
    (entry.2 = entry'.2 ↔ entry.1 = entry'.1)
  /-- No two ids of the table have equal types. -/
  unique : ∀ {id id' : TypeId} {type : DataType}, table.get id = .ok type →
    table.get id' = .ok type → id = id'
  /-- The ids count the types in the order in which they first came. -/
  dense : table.types.toList = transcript.types.eraseDups

theorem Records.canonical {table : TypeTable} {transcript : Transcript}
    (h : table.Records transcript.types) (hfollows : Follows [] transcript.interned) :
    Canonical transcript table := by
  have hnames : ∀ entry ∈ transcript.interned, table.get entry.2 = .ok entry.1 := fun entry hentry =>
    h.get_iff.mpr ⟨List.mem_map_of_mem hentry, hfollows.numbered entry hentry⟩
  have hunique {id id' : TypeId} {type : DataType} (hid : table.get id = .ok type)
      (hid' : table.get id' = .ok type) : id = id' :=
    (h.get_iff.mp hid).2.trans (h.get_iff.mp hid').2.symm
  refine ⟨hnames, fun entry hentry entry' hentry' => ⟨fun hid => ?_, fun htype => ?_⟩, hunique,
    h.types⟩
  · have hget := hnames entry hentry
    rw [hid, hnames entry' hentry'] at hget
    exact (Except.ok.inj hget).symm
  · exact hunique (hnames entry hentry) (htype ▸ hnames entry' hentry')

/-- **Interning is canonical and survives reloads.** Requests to a table that starts empty are answered as
if no reload came between them: with the same ids, for the same types, and with the same types in the end.
Every id names the type that it was given for, no two ids name the same type, the ids number the types in
the order in which they first came, and an id that has a meaning at one point keeps it. The reloads
succeed as long as there are no more types than ids of 32 bits. -/
theorem reloads_keep_ids (requests : List Request) (hfits : ∀ request ∈ requests, request.Fits) :
    ∃ transcript table, serveAll {} (Request.withoutReloads requests) = some (transcript, table) ∧
      Canonical transcript table ∧
      (table.size ≤ wordBound → ∃ table', serveAll {} requests = some (transcript, table')) ∧
      ∀ transcript' table', serveAll {} requests = some (transcript', table') →
        transcript' = transcript ∧ table'.types = table.types ∧ Canonical transcript table' ∧
          ∀ before after, before ++ after = requests →
            ∃ earlier middle, serveAll {} before = some (earlier, middle) ∧
              Canonical earlier middle ∧ Grows middle table' := by
  obtain ⟨transcript, hfollows, hruns, hwithout⟩ :=
    serveAll_determined hfits loadable_nil
  obtain ⟨transcript', table, hserve⟩ := serveAll_withoutReloads {} requests
  obtain ⟨rfl, htable⟩ := hwithout.records records_empty hserve
  refine ⟨transcript', table, hserve, htable.canonical hfollows, fun hle => ?_, ?_⟩
  · rw [htable.size] at hle
    exact hruns.serves hle {} records_empty
  · intro transcript'' table' hserve'
    obtain ⟨rfl, htable'⟩ := hruns.records records_empty hserve'
    refine ⟨rfl, Array.toList_inj.mp (htable'.types.trans htable.types.symm),
      htable'.canonical hfollows, ?_⟩
    rintro before after rfl
    -- the run passes through the table of the first part, which records a part of the past
    obtain ⟨earlier, middle, later, hbefore, hafter⟩ := serveAll_append_eq_some hserve'
    obtain ⟨earlier', hearlier, hruns₁, -⟩ :=
      serveAll_determined (fun _ h => hfits _ (List.mem_append_left _ h)) loadable_nil
    obtain ⟨rfl, hmiddle⟩ := hruns₁.records records_empty hbefore
    obtain ⟨later', -, hruns₂, -⟩ :=
      serveAll_determined (fun _ h => hfits _ (List.mem_append_right _ h))
        (hearlier.loadable loadable_nil)
    obtain ⟨rfl, hlast⟩ := hruns₂.records hmiddle hafter
    exact ⟨earlier, middle, hbefore, hmiddle.canonical hearlier, hmiddle.grows hlast⟩

/-- Nested arrays, a type that is asked for again after a reload, and reloads before cached, uncached and
new types. -/
def mixedRequests : List Request :=
  [.bits 8, .array ⟨0⟩ [2, 3], .reload, .intern (.array ⟨0⟩ 3), .bits 8, .reload, .array ⟨0⟩ [2, 3],
    .bits 1]

theorem reloads_keep_ids_mixedRequests :
    (∀ request ∈ mixedRequests, request.Fits) ∧
      ∃ transcript table, serveAll {} mixedRequests = some (transcript, table) ∧
        transcript.ids = [⟨0⟩, ⟨2⟩, ⟨1⟩, ⟨0⟩, ⟨2⟩, ⟨3⟩] ∧ Canonical transcript table := by
  have hfits : ∀ request ∈ mixedRequests, request.Fits := by decide
  obtain ⟨transcript, table, hrun, -, hserves, hreloads⟩ := reloads_keep_ids mixedRequests hfits
  have hseen : (serveAll {} (Request.withoutReloads mixedRequests)).map
      (fun seen => (seen.1.ids, seen.2.size)) = some ([⟨0⟩, ⟨2⟩, ⟨1⟩, ⟨0⟩, ⟨2⟩, ⟨3⟩], 4) := by
    decide +kernel
  rw [hrun] at hseen
  obtain ⟨hids, hsize⟩ : transcript.ids = [⟨0⟩, ⟨2⟩, ⟨1⟩, ⟨0⟩, ⟨2⟩, ⟨3⟩] ∧ table.size = 4 :=
    Prod.mk.inj (Option.some.inj hseen)
  obtain ⟨table', hserve⟩ := hserves (by rw [hsize]; decide)
  exact ⟨hfits, transcript, table', hserve, hids, (hreloads _ _ hserve).2.2.1⟩

end TypeTable

end NetArray
