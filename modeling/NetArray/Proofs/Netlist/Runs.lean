import Mathlib
import NetArray.Proofs.Steps
import NetArray.Proofs.Netlist.OperationBits
import NetArray.Proofs.Netlist.PortDriving

/-!
# Runs of the builder

A run of the builder is a sequence of calls. Each call is given values that earlier calls of the run made, and
may answer, refuse or fault; the run goes on in the state that the call left.

A `Draft` is what there is after some calls: the builder, and every value made so far with its *meaning*,
the bits that the call which made it says it has. `Call.meaning` gives them without looking at the netlist: a
slice means a part of its operand, a concatenation means its operands from the last one to the first, and so
on.

The main result is `Draft.origins_of_made`: tracing a value through the cells of any later builder finds
exactly its meaning. It follows from the invariant `Draft.Tracked` — every value shows its meaning — which a
single call keeps (`Draft.Tracked.step`) because the builder only grows, and hence every run
(`Draft.Tracked.reaches`).

Nothing bounds the constants of such a run (`Draft.Admits`), so a value may have more bits than its width can
count. Where every constant has a width of its own (`Call.Fits`, `Draft.Allows`) the values have a bit for each
unit of their width, and the invariant is `Draft.Sound`.
-/

namespace NetArray

/-- A call of an operation of the builder. -/
inductive Call where
  -- ports
  | input (name : String) (type : TypeId)
  | output (name : String) (type : TypeId)
  | drive (port : PortId) (value : Value)
  -- cells
  | constant (pattern : Pattern)
  | slice (source : Value) (low width : Nat)
  | concat (operands : List Value)
  | wire (name : Ident) (source : Value)
  | bitcast (source : Value) (type : TypeId)
  -- types and names
  | internType (type : DataType)
  | internArray (element : TypeId) (dims : List Nat)
  | intern (text : String)
  | fresh (stem : String)
  | uniqueName (name : String)
  deriving DecidableEq, Repr

namespace Call

/-- The values that a call is given. -/
def operands : Call → List Value
  | .drive _ value => [value]
  | .slice source _ _ => [source]
  | .concat operands => operands
  | .wire _ source => [source]
  | .bitcast source _ => [source]
  | _ => []

/-- The widths that a call is given are machine words, as they are for every caller. -/
def Words : Call → Prop
  | .slice _ _ width => width < wordBound
  | .internType (.bits width) => width < wordBound
  | _ => True

instance (call : Call) : Decidable call.Words := by
  unfold Words
  split <;> infer_instance

/-- The widths that a call is given are machine words, and a constant has no more bits than a width can count. A
longer pattern can be made, but has no width of its own (`Pattern.width`): what is said of calls that fit leaves
such constants out. -/
def Fits : Call → Prop
  | .constant pattern => pattern.bits.length < wordBound
  | call => call.Words

instance (call : Call) : Decidable call.Fits := by
  unfold Fits
  split <;> infer_instance

theorem Fits.words {call : Call} (h : call.Fits) : call.Words := by
  cases call with
  | constant => trivial
  | _ => exact h

/-- Runs a call. The answer is the value that it made, if it makes one. -/
def perform : Call → Build (Option Value)
  | .input name type => some <$> Build.input name type
  | .output name type => do let _ ← Build.output name type; return none
  | .drive port value => do Build.drive port value; return none
  | .constant pattern => some <$> Build.constant pattern
  | .slice source low width => some <$> Build.slice source low width
  | .concat operands => some <$> Build.concat operands
  | .wire name source => some <$> Build.wire name source
  | .bitcast source type => some <$> Build.bitcast source type
  | .internType type => modifyGet fun builder =>
    (none, { builder with types := (builder.types.intern type).2 })
  | .internArray element dims => do let _ ← Build.arrayType element dims; return none
  | .intern text => do let _ ← Build.intern text; return none
  | .fresh stem => do let _ ← Build.fresh stem; return none
  | .uniqueName name => do let _ ← Build.uniqueName name; return none

/-- The bits that a call gives the value that it makes, from those of its operands. -/
def meaning (bits : Value → List BitOrigin) (result : Value) : Call → List BitOrigin
  | .input .. => (List.range result.width).map (.input result.signal)
  | .constant pattern => pattern.bits.map .constant
  | .slice source low width => ((bits source).drop low).take width
  | .concat operands => (operands.reverse.map bits).flatten
  | .wire _ source => bits source
  | .bitcast source _ => bits source
  | _ => []

end Call

/-- A netlist under construction and the values made so far, the latest first, each with its meaning. -/
structure Draft where
  builder : Builder
  made : List (Value × List BitOrigin) := []

namespace Draft

/-- Before any call. -/
def start (names : Names) (name : String) : Draft :=
  { builder := .start names name }

/-- The meaning of a value that was made. -/
def bits (draft : Draft) (value : Value) : List BitOrigin :=
  (draft.made.lookup value).getD []

/-- The call is about values that were made. -/
def Admits (draft : Draft) (call : Call) : Prop :=
  call.Words ∧ ∀ value ∈ call.operands, value ∈ draft.made.map Prod.fst

instance (draft : Draft) (call : Call) : Decidable (draft.Admits call) :=
  inferInstanceAs (Decidable (_ ∧ _))

/-- The call is about values that were made, and a constant has a width of its own. -/
def Allows (draft : Draft) (call : Call) : Prop :=
  call.Fits ∧ ∀ value ∈ call.operands, value ∈ draft.made.map Prod.fst

instance (draft : Draft) (call : Call) : Decidable (draft.Allows call) :=
  inferInstanceAs (Decidable (_ ∧ _))

/-- What there is after a call, whatever its outcome. -/
def step (draft : Draft) (call : Call) : Draft :=
  match call.perform draft.builder with
  | .ok (some value) builder =>
    { builder := builder, made := (value, call.meaning draft.bits value) :: draft.made }
  | .ok none builder => { draft with builder := builder }
  | .error _ builder => { draft with builder := builder }

/-- Some calls lead from the one draft to the other. -/
def Reaches (draft later : Draft) : Prop :=
  NetArray.Reaches Admits step draft later

end Draft

/-! ### One call -/

namespace Call

open Builder

private theorem keeps_some {x : Build Value} (h : Keeps Grows x) :
    Keeps Grows (some <$> x : Build (Option Value)) := by
  intro builder
  rw [finalState_map]
  exact h builder

/-- Whatever the outcome of a call, the builder has only grown. -/
theorem keeps_perform {call : Call} (hwords : call.Words) : Keeps Grows call.perform := by
  cases call with
  | input name type => exact keeps_some (keeps_input _ _)
  | output name type => exact .bind (keeps_output _ _) fun _ => .pure _
  | drive port value => exact .bind (keeps_drive _ _) fun _ => .pure _
  | constant pattern => exact keeps_some (keeps_constant pattern)
  | slice source low width => exact keeps_some (keeps_slice hwords)
  | concat operands => exact keeps_some (keeps_concat _)
  | wire name source => exact keeps_some (keeps_wire _ _)
  | bitcast source type => exact keeps_some (keeps_bitcast _ _)
  | internType type =>
    refine fun builder => .of_types (TypeTable.grows_intern _ _) fun hsound => (hsound.intern ?_).1
    rintro width rfl
    exact hwords
  | internArray element dims => exact .bind (keeps_arrayType _ _) fun _ => .pure _
  | intern text => exact .bind (keeps_intern _) fun _ => .pure _
  | fresh stem => exact .bind (keeps_fresh _) fun _ => .pure _
  | uniqueName name => exact .bind (keeps_uniqueName _) fun _ => .pure _

variable {builder builder' : Builder} {value : Value}

private theorem run_of_some {x : Build Value}
    (h : (some <$> x : Build (Option Value)) builder = .ok (some value) builder') :
    x builder = .ok value builder' := by
  have hbind : (some <$> x : Build (Option Value)) = x >>= fun value => pure (some value) :=
    map_eq_pure_bind ..
  rw [hbind, change_bind_eq_ok] at h
  obtain ⟨found, middle, hrun, hpure⟩ := h
  obtain ⟨heq, rfl⟩ := change_pure_eq_ok.mp hpure
  cases heq
  exact hrun

/-- A call whose answer is dropped makes no value. -/
private theorem run_ne_some {α : Type} {x : Build α} :
    (do let _ ← x; return none : Build (Option Value)) builder ≠ .ok (some value) builder' := by
  intro h
  obtain ⟨_, _, -, hpure⟩ := change_bind_eq_ok.mp h
  exact nomatch (change_pure_eq_ok.mp hpure).1

/-- The calls that make a value, each by an operation that answers with it. -/
inductive Makes (builder : Builder) (value : Value) (builder' : Builder) : Call → Prop where
  | input {name : String} {type : TypeId} (hrun : Build.input name type builder = .ok value builder') :
      Makes builder value builder' (.input name type)
  | constant {pattern : Pattern} (hrun : Build.constant pattern builder = .ok value builder') :
      Makes builder value builder' (.constant pattern)
  | slice {source : Value} {low width : Nat} (hrun : Build.slice source low width builder = .ok value builder') :
      Makes builder value builder' (.slice source low width)
  | concat {operands : List Value} (hrun : Build.concat operands builder = .ok value builder') :
      Makes builder value builder' (.concat operands)
  | wire {name : Ident} {source : Value} (hrun : Build.wire name source builder = .ok value builder') :
      Makes builder value builder' (.wire name source)
  | bitcast {source : Value} {type : TypeId} (hrun : Build.bitcast source type builder = .ok value builder') :
      Makes builder value builder' (.bitcast source type)

theorem makes_of_perform {call : Call} (hrun : call.perform builder = .ok (some value) builder') :
    Makes builder value builder' call := by
  cases call with
  | input name type => exact .input (run_of_some hrun)
  | constant pattern => exact .constant (run_of_some hrun)
  | slice source low width => exact .slice (run_of_some hrun)
  | concat operands => exact .concat (run_of_some hrun)
  | wire name source => exact .wire (run_of_some hrun)
  | bitcast source type => exact .bitcast (run_of_some hrun)
  -- the other calls make no value
  | output name type => exact (run_ne_some hrun).elim
  | drive port value => exact (run_ne_some hrun).elim
  | internType type => cases hrun
  | internArray element dims => exact (run_ne_some hrun).elim
  | intern text => exact (run_ne_some hrun).elim
  | fresh stem => exact (run_ne_some hrun).elim
  | uniqueName name => exact (run_ne_some hrun).elim

/-- **One call.** If the operands of a call show bits, the value that it makes shows the bits that the call
means, however long the constants are. -/
theorem shows_perform {call : Call} {bits : Value → List BitOrigin} (hsound : builder.Sound)
    (hwords : call.Words) (hoperands : ∀ value ∈ call.operands, builder.Shows value (bits value))
    (hrun : call.perform builder = .ok (some value) builder') :
    builder'.Shows value (call.meaning bits value) := by
  have hsound' := ((keeps_perform hwords).ok hrun).sound hsound
  cases makes_of_perform hrun with
  | input hmakes => exact shows_of_input hsound hsound' hmakes
  | constant hmakes => exact shows_of_constant hsound hmakes
  | slice hmakes => exact shows_of_slice hsound (hoperands _ (List.mem_singleton_self _)) hmakes
  | concat hmakes =>
    rw [meaning, List.map_reverse]
    exact shows_of_concat hsound (List.forall₂_map_right_iff.mpr (List.forall₂_same.mpr hoperands)) hmakes
  | wire hmakes => exact shows_of_wire (hoperands _ (List.mem_singleton_self _)) hmakes
  | bitcast hmakes => exact shows_of_bitcast (hoperands _ (List.mem_singleton_self _)) hmakes

/-- The same where a constant has a width of its own: if the operands of a call carry bits, the value that it
makes carries the bits that the call means. -/
theorem carries_perform {call : Call} {bits : Value → List BitOrigin} (hsound : builder.Sound)
    (hfits : call.Fits) (hoperands : ∀ value ∈ call.operands, builder.Carries value (bits value))
    (hrun : call.perform builder = .ok (some value) builder') :
    builder'.Carries value (call.meaning bits value) := by
  cases makes_of_perform hrun with
  | input hmakes => exact carries_input hsound hmakes
  | constant hmakes => exact carries_of_constant hsound hfits hmakes
  | slice hmakes => exact carries_of_slice hsound (hoperands _ (List.mem_singleton_self _)) hmakes
  | concat hmakes =>
    rw [meaning, List.map_reverse]
    exact carries_of_concat hsound (List.forall₂_map_right_iff.mpr (List.forall₂_same.mpr hoperands)) hmakes
  | wire hmakes => exact carries_of_run (carries_wire (hoperands _ (List.mem_singleton_self _))) hmakes
  | bitcast hmakes => exact carries_of_bitcast (hoperands _ (List.mem_singleton_self _)) hmakes

end Call

/-! ### Runs -/

namespace Draft

/-- Every value that was made shows its meaning. -/
structure Tracked (draft : Draft) : Prop where
  builder : draft.builder.Sound
  /-- A value shows the bits that are noted for it. -/
  shows : ∀ {value bits}, (value, bits) ∈ draft.made → draft.builder.Shows value bits

/-- Every value that was made carries its meaning: none has more bits than a width can count. -/
structure Sound (draft : Draft) : Prop extends draft.Tracked where
  short : ∀ {value bits}, (value, bits) ∈ draft.made → bits.length < wordBound

variable {draft later : Draft} {call : Call} {value : Value} {bits : List BitOrigin}

theorem sound_start (names : Names) (name : String) : (start names name).Sound :=
  ⟨⟨Builder.sound_start names name, fun hmem => nomatch hmem⟩, fun hmem => nomatch hmem⟩

/-- A value carries the bits that are noted for it. -/
theorem Sound.made (h : draft.Sound) (hmade : (value, bits) ∈ draft.made) : draft.builder.Carries value bits :=
  (h.shows hmade).carries (h.short hmade)

/-- A value has one meaning only, however often it is noted. -/
theorem Tracked.bits_eq (h : draft.Tracked) (hmade : (value, bits) ∈ draft.made) :
    draft.bits value = bits := by
  have hfound : (draft.made.lookup value).isSome := by
    rw [List.lookup_isSome_iff]
    exact ⟨_, hmade, beq_self_eq_true value⟩
  -- what is looked up is noted too, and a value has one list of bits only
  obtain ⟨found, hlookup⟩ := Option.isSome_iff_exists.mp hfound
  obtain ⟨earlier, later, heq, -⟩ := List.lookup_eq_some_iff.mp hlookup
  have hmem : (value, found) ∈ draft.made := by
    rw [heq]
    exact List.mem_append_right _ List.mem_cons_self
  rw [Draft.bits, hlookup, Option.getD_some]
  exact (h.shows hmem).toResolves.det (h.shows hmade).toResolves

theorem Allows.admits (hallows : draft.Allows call) : draft.Admits call :=
  ⟨hallows.1.words, hallows.2⟩

/-- The operands of a call were made, and are noted with their meaning. -/
theorem Admits.noted (hadmits : draft.Admits call) (h : draft.Tracked) :
    ∀ value ∈ call.operands, (value, draft.bits value) ∈ draft.made := by
  intro value hvalue
  obtain ⟨⟨_, bits⟩, hmade, rfl⟩ := List.mem_map.mp (hadmits.2 value hvalue)
  rw [h.bits_eq hmade]
  exact hmade

/-- The builder after a step is that of the call. -/
theorem step_builder (draft : Draft) (call : Call) :
    (draft.step call).builder = finalState (call.perform draft.builder) := by
  unfold step
  cases call.perform draft.builder with
  | error failure builder => rfl
  | ok made builder => cases made <;> rfl

/-- A call leaves a larger builder behind. -/
theorem grows_step (hadmits : draft.Admits call) :
    draft.builder.Grows (draft.step call).builder := by
  rw [step_builder]
  exact Call.keeps_perform hadmits.1 draft.builder

/-- After a call that answers with a value. -/
theorem step_of_some {builder : Builder} (hrun : call.perform draft.builder = .ok (some value) builder) :
    draft.step call = ⟨builder, (value, call.meaning draft.bits value) :: draft.made⟩ := by
  unfold step
  rw [hrun]

/-- What a call adds to the values that were made, if anything, is the one that it answers with, with what it
means. -/
theorem made_step (draft : Draft) (call : Call) (hmem : (value, bits) ∈ (draft.step call).made) :
    (value, bits) ∈ draft.made ∨
      call.perform draft.builder = .ok (some value) (draft.step call).builder ∧
        bits = call.meaning draft.bits value := by
  unfold step at hmem ⊢
  cases hrun : call.perform draft.builder with
  | error failure builder =>
    rw [hrun] at hmem
    exact .inl hmem
  | ok made builder =>
    rw [hrun] at hmem
    cases made with
    | none => exact .inl hmem
    | some made =>
      rcases List.mem_cons.mp hmem with hnew | hold
      · cases hnew
        exact .inr ⟨rfl, rfl⟩
      · exact .inl hold

/-- **One step.** After a call every value shows its meaning, the new one included. -/
theorem Tracked.step (h : draft.Tracked) (hadmits : draft.Admits call) : (draft.step call).Tracked where
  builder := (grows_step hadmits).sound h.builder
  shows hmem := by
    rcases made_step draft call hmem with hold | ⟨hrun, rfl⟩
    · exact (h.shows hold).mono (grows_step hadmits)
    · refine Call.shows_perform h.builder hadmits.1 (fun value hvalue => ?_) hrun
      exact h.shows (hadmits.noted h value hvalue)

/-- After a call with a constant that has a width of its own every value carries its meaning. -/
theorem Sound.step (h : draft.Sound) (hallows : draft.Allows call) : (draft.step call).Sound where
  toTracked := h.toTracked.step hallows.admits
  short hmem := by
    rcases made_step draft call hmem with hold | ⟨hrun, rfl⟩
    · exact h.short hold
    · have hoperands : ∀ value ∈ call.operands, draft.builder.Carries value (draft.bits value) :=
        fun value hvalue => h.made (hallows.admits.noted h.toTracked value hvalue)
      have hcarries := Call.carries_perform h.builder hallows.1 hoperands hrun
      rw [hcarries.length]
      exact hcarries.width_lt ((grows_step hallows.admits).sound h.builder)

/-- **A whole run.** Every value shows its meaning in every state that a run reaches. -/
theorem Tracked.reaches (h : draft.Tracked) (hrun : draft.Reaches later) :
    later.Tracked ∧ draft.builder.Grows later.builder := by
  refine hrun.keeps (P := fun later => later.Tracked ∧ draft.builder.Grows later.builder)
    (fun hadmits hlater => ?_) ⟨h, .refl _⟩
  exact ⟨hlater.1.step hadmits, hlater.2.trans (grows_step hadmits)⟩

/-- **Provenance.** Once a call has made a value, the resolver answers in every later state of the builder with
the bits that the call means, those of inputs being bits of ports, within their width. There is one for each unit
of the width of the value, unless there are too many for a width to count: then it counts what is left of their
number in a word. While a builder has no more signals than words can number, the signals named are words. -/
theorem origins_of_made {names : Names} {name : String} (hrun : (start names name).Reaches draft)
    (hmade : (value, bits) ∈ draft.made) (hlater : draft.Reaches later)
    (hroom : later.builder.signals.size ≤ wordBound) :
    later.builder.origins value = .ok bits ∧ value.width = lowWord bits.length ∧
      value.signal.index < wordBound ∧
      ∀ {port bit}, .input port bit ∈ bits → ∃ entry width,
        later.builder.signals.find? port = some entry ∧ entry.kind = .port ∧
          later.builder.types.bitWidth entry.type = .ok width ∧ bit < width ∧ port.index < wordBound := by
  have htracked := ((sound_start names name).toTracked.reaches hrun).1
  obtain ⟨-, hgrows⟩ := htracked.reaches hlater
  have hshows := (htracked.shows hmade).mono hgrows
  obtain ⟨-, entry, hentry, -⟩ := Builder.valueOf_eq_ok.mp hshows.handle
  refine ⟨hshows.origins, hshows.width, (Table.find?_lt hentry).trans_le hroom, fun hmem => ?_⟩
  obtain ⟨entry, width, hentry, hkind, hwidth, hbit⟩ := hshows.traces.port hmem
  exact ⟨entry, width, hentry, hkind, hwidth, hbit, (Table.find?_lt hentry).trans_le hroom⟩

/-- Calls that cut an input of four bits in halves and join them the other way round. -/
def swapHalves : List Call :=
  [.internType (.bits 4), .input "a" ⟨0⟩, .slice ⟨⟨0⟩, ⟨0⟩, 4⟩ 0 2, .slice ⟨⟨0⟩, ⟨0⟩, 4⟩ 2 2,
    .concat [⟨⟨1⟩, ⟨1⟩, 2⟩, ⟨⟨2⟩, ⟨1⟩, 2⟩]]

/-- The provenance of the swapped halves, in the state after one more call. -/
theorem origins_of_swapHalves :
    ((swapHalves.foldl step (start {} "m")).step (.wire ⟨0⟩ ⟨⟨1⟩, ⟨1⟩, 2⟩)).builder.origins ⟨⟨3⟩, ⟨0⟩, 4⟩
      = .ok [.input ⟨0⟩ 2, .input ⟨0⟩ 3, .input ⟨0⟩ 0, .input ⟨0⟩ 1] :=
  (origins_of_made (reaches_foldl (by decide +kernel)) (by decide +kernel)
    (Reaches.tail .refl (by decide +kernel)) (by decide +kernel)).1

/-- A constant can be the first thing that is made, unless its width is zero. -/
theorem exists_made_constant (names : Names) (name : String) {pattern : Pattern} (hwidth : pattern.width ≠ 0) :
    ∃ value bits, (value, bits) ∈ ((start names name).step (.constant pattern)).made ∧
      ((start names name).step (.constant pattern)).builder.origins value = .ok bits ∧
      value.width = pattern.width ∧ bits.length = pattern.bits.length := by
  obtain ⟨value, builder, hrun, hshows⟩ := shows_constant (Builder.sound_start names name) hwidth
  have hperform : (Call.constant pattern).perform (start names name).builder = .ok (some value) builder := by
    rw [Call.perform, map_eq_pure_bind]
    exact change_bind_eq_ok.mpr ⟨value, builder, hrun, rfl⟩
  have hlength : (pattern.bits.map BitOrigin.constant).length = pattern.bits.length := List.length_map _
  rw [step_of_some hperform]
  refine ⟨value, _, List.mem_cons_self, hshows.origins, ?_, hlength⟩
  rw [hshows.width, hlength]
  rfl

/-- A constant of five bits more than a word can count is five bits wide, and has them all. -/
theorem origins_of_longConstant :
    let draft := (start {} "m").step (.constant ⟨List.replicate (wordBound + 5) .zero⟩)
    (start {} "m").Reaches draft ∧ ∃ value bits, (value, bits) ∈ draft.made ∧
      draft.builder.origins value = .ok bits ∧ value.width = 5 ∧ bits.length = wordBound + 5 := by
  have hlength : (List.replicate (wordBound + 5) Logic.zero).length = wordBound + 5 := List.length_replicate
  have hwidth : Pattern.width ⟨List.replicate (wordBound + 5) .zero⟩ = 5 := by
    rw [Pattern.width, hlength]
    decide
  have hsome : Pattern.width ⟨List.replicate (wordBound + 5) .zero⟩ ≠ 0 := by
    rw [hwidth]
    decide
  obtain ⟨value, bits, hmade, horigins, hvalue, hbits⟩ := exists_made_constant {} "m" hsome
  refine ⟨Reaches.tail .refl ⟨trivial, fun _ hmem => nomatch hmem⟩, value, bits, hmade, horigins, ?_⟩
  exact ⟨hvalue.trans hwidth, hbits.trans hlength⟩

end Draft

end NetArray
