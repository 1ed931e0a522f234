import NetArray.Proofs.Array.BitExact
import NetArray.Proofs.Array.Revisions
import NetArray.Proofs.Array.Shapes

/-!
# The lowered state is never stale

An array that was lowered notes the revision of its store, and counts as lowered as long as the store is at that
revision. Many arrays may share the store, and copies of the array keep the note, so what the note is worth is a
statement about whole runs: a `Lowering` that was made earlier is what the note goes back to
(`Scene.notesLowerings_of_reachable`), and since then the store has only advanced (`Lowering.Answered.advances`). Two
things follow from that.

* Where the revision is still the same, so is the store: the elements are those that were lowered, and lowering them
  again has the same bits (`Lowering.Answered.current`).
* Once something was written, the revision has passed the note for good (`Scene.not_lowered_of_write`).

For an array that does not count as lowered, the state is a count of its elements. That needs the number of all
elements, which an array without any may not have: the product of its dimensions is a machine number only if it is one
at every step. All of it together is `Scene.lowered_never_stale`.
-/

namespace NetArray

/-! ### Populations -/

/-- What a population says about the elements of an array, if it is not that they were lowered. -/
def Population.Describes (view : ArrayView) (store : Store) : Population → Prop
  | .unpopulated => ∀ offset < view.shape.prod, view.element store offset = .ok none
  | .fullyPopulated => 0 < view.shape.prod ∧
      ∀ offset < view.shape.prod, ∃ element, view.element store offset = .ok (some element)
  | .partiallyPopulated => (∃ offset < view.shape.prod, view.element store offset = .ok none) ∧
      ∃ offset < view.shape.prod, ∃ element, view.element store offset = .ok (some element)
  | .lowered => False

/-- Only one population describes an array. -/
theorem Population.Describes.unique {view : ArrayView} {store : Store} {population population' : Population}
    (h : population.Describes view store) (h' : population'.Describes view store) : population = population' := by
  have hclash : ∀ offset element, view.element store offset = .ok none →
      view.element store offset ≠ .ok (some element) := by
    intro offset element hnone hsome
    cases hnone.symm.trans hsome
  cases population with
  | unpopulated =>
    cases population' with
    | unpopulated => rfl
    | partiallyPopulated =>
      obtain ⟨-, offset, hlt, element, helement⟩ := h'
      exact absurd helement (hclash offset element (h offset hlt))
    | fullyPopulated =>
      obtain ⟨element, helement⟩ := h'.2 0 h'.1
      exact absurd helement (hclash 0 element (h 0 h'.1))
    | lowered => exact h'.elim
  | partiallyPopulated =>
    obtain ⟨⟨gap, hgap, hnone⟩, offset, hlt, element, helement⟩ := h
    cases population' with
    | unpopulated => exact absurd helement (hclash offset element (h' offset hlt))
    | partiallyPopulated => rfl
    | fullyPopulated =>
      obtain ⟨found, hfound⟩ := h'.2 gap hgap
      exact absurd hfound (hclash gap found hnone)
    | lowered => exact h'.elim
  | fullyPopulated =>
    cases population' with
    | unpopulated =>
      obtain ⟨element, helement⟩ := h.2 0 h.1
      exact absurd helement (hclash 0 element (h' 0 h.1))
    | partiallyPopulated =>
      obtain ⟨⟨gap, hgap, hnone⟩, -⟩ := h'
      obtain ⟨element, helement⟩ := h.2 gap hgap
      exact absurd helement (hclash gap element hnone)
    | fullyPopulated => rfl
    | lowered => exact h'.elim
  | lowered => exact h.elim

namespace ArrayView

variable {view : ArrayView} {store : Store} {workspace : Workspace} {count : Nat} {population : Population}

theorem population_of_marked (h : view.loweredAt = some store.revision) :
    view.population store = .ok .lowered := by
  unfold ArrayView.population
  rw [if_pos h]
  rfl

/-- An array counts as lowered only if the note says so. -/
theorem population_eq_lowered_iff :
    view.population store = .ok .lowered ↔ view.loweredAt = some store.revision := by
  refine ⟨fun hlowered => ?_, population_of_marked⟩
  by_contra hmark
  unfold ArrayView.population at hlowered
  rw [if_neg hmark] at hlowered
  obtain ⟨count, -, hlowered⟩ := bind_eq_ok.mp hlowered
  obtain ⟨set, -, hlowered⟩ := bind_eq_ok.mp hlowered
  split at hlowered
  · cases hlowered
  · split at hlowered <;> cases hlowered

/-- The population of an array of `count` elements, of which so many are there. -/
def populationOf (count populated : Nat) : Population :=
  if populated = 0 then .unpopulated else if populated = count then .fullyPopulated else .partiallyPopulated

section Counts

variable (hsound : workspace.Sound) (h : view.Fits store) (hstore : store.Sound workspace.builder)

include hsound h hstore

/-- An array that does not count as lowered has its elements counted. -/
theorem population_eq (hcount : view.count = .ok count) (hmark : view.loweredAt ≠ some store.revision) :
    view.population store = .ok (populationOf view.shape.prod
      ((List.range view.shape.prod).countP fun offset => !view.isGap store offset)) := by
  obtain ⟨rfl, -⟩ := eq_of_elementCount hcount
  have hset : (List.range view.shape.prod).mapM (view.isSet store)
      = .ok ((List.range view.shape.prod).map fun offset => !view.isGap store offset) := by
    refine mapM_eq_ok.mpr (List.forall₂_map_right_iff.mpr (List.forall₂_same.mpr fun offset hoffset => ?_))
    obtain ⟨_, -, hgap, hset⟩ | ⟨-, hgap, hset⟩ :=
      h.element_cases hsound hstore (List.mem_range.mp hoffset) <;>
    · rw [hset, hgap]
      rfl
  unfold ArrayView.population
  rw [if_neg hmark, hcount]
  refine bind_eq_ok.mpr ⟨_, rfl, bind_eq_ok.mpr ⟨_, hset, ?_⟩⟩
  rw [List.countP_map, Function.id_comp]
  unfold populationOf
  split
  · next hzero => rw [if_pos hzero]; rfl
  · next hne => rw [if_neg hne]; rfl

/-- Where there is no gap there is an element. -/
private theorem exists_element {offset : Nat} (hoffset : offset < view.shape.prod)
    (hset : ¬view.isGap store offset = true) : ∃ element, view.element store offset = .ok (some element) := by
  obtain ⟨element, helement, -⟩ | ⟨-, hgap, -⟩ := h.element_cases hsound hstore hoffset
  · exact ⟨element, helement⟩
  · exact absurd hgap hset

/-- The population that goes with the number of elements that are set describes the array. -/
theorem describes_populationOf : (populationOf view.shape.prod
    ((List.range view.shape.prod).countP fun offset => !view.isGap store offset)).Describes view store := by
  have hnone : ∀ offset, view.isGap store offset = true → view.element store offset = .ok none := by
    intro offset hgap
    simpa [isGap] using hgap
  have hsome : ∀ offset < view.shape.prod, ¬view.isGap store offset = true →
      ∃ element, view.element store offset = .ok (some element) :=
    fun offset => exists_element hsound h hstore
  obtain ⟨populated, hpopulated⟩ : ∃ populated,
      (List.range view.shape.prod).countP (fun offset => !view.isGap store offset) = populated := ⟨_, rfl⟩
  have hzero : populated = 0 ↔ ∀ offset < view.shape.prod, view.isGap store offset = true := by
    rw [← hpopulated, List.countP_eq_zero]
    simp
  have hall : populated = view.shape.prod ↔ ∀ offset < view.shape.prod, ¬view.isGap store offset = true := by
    have hlength := List.countP_eq_length (p := fun offset => !view.isGap store offset)
      (l := List.range view.shape.prod)
    rw [List.length_range, hpopulated] at hlength
    rw [hlength]
    simp
  rw [hpopulated, populationOf]
  by_cases hempty : populated = 0
  · rw [if_pos hempty]
    exact fun offset hoffset => hnone offset (hzero.mp hempty offset hoffset)
  rw [if_neg hempty]
  by_cases hfull : populated = view.shape.prod
  · rw [if_pos hfull]
    exact ⟨by omega, fun offset hoffset => hsome offset hoffset (hall.mp hfull offset hoffset)⟩
  · -- there is one of either kind
    rw [if_neg hfull]
    rw [hzero] at hempty
    rw [hall] at hfull
    push Not at hempty hfull
    obtain ⟨offset, hoffset, hset⟩ := hempty
    obtain ⟨gap, hlt, hgap⟩ := hfull
    exact ⟨⟨gap, hlt, hnone gap hgap⟩, offset, hoffset, hsome offset hoffset hset⟩

/-- **Counting the elements.** The population describes them. -/
theorem exists_population (hcount : view.count = .ok count) (hmark : view.loweredAt ≠ some store.revision) :
    ∃ population, view.population store = .ok population ∧ population.Describes view store :=
  ⟨_, population_eq hsound h hstore hcount hmark, describes_populationOf hsound h hstore⟩

end Counts

end ArrayView

/-! ### Lowerings -/

/-- A lowering that answered: the scene and the array that it was made of, and what came out of it. -/
structure Lowering where
  before : Scene
  source : ArrayView
  settings : Settings
  value : Value
  answer : ArrayView
  after : Workspace

namespace Lowering

/-- The lowering was made before the scene, and the array is the one that it answered, under whatever name. -/
structure Answered (lowering : Lowering) (scene : Scene) (view : ArrayView) : Prop where
  reachable : lowering.before.Reachable
  source : lowering.source ∈ lowering.before.arrays
  run : lowering.source.lower lowering.settings lowering.before.workspace
    = .ok (lowering.value, lowering.answer) lowering.after
  /-- By itself or to drive an output, with whatever happened since. -/
  since : ∃ action, action.Lowers lowering.source lowering.settings ∧
    (lowering.before.step action).Reaches scene
  view : view = { lowering.answer with name := view.name }

/-- What was lowered is still what the array holds, and has the same bits if it is lowered again. -/
structure Current (lowering : Lowering) (scene : Scene) (view : ArrayView) : Prop where
  elements : ∃ store store', lowering.before.workspace.store lowering.source.store = .ok store ∧
    scene.workspace.store view.store = .ok store' ∧
    ∀ offset < view.shape.prod, ∃ element, view.element store' offset = .ok (some element) ∧
      lowering.source.element store offset = .ok (some element)
  bits : ∀ settings, ∃ value answer workspace bits,
    view.lower settings scene.workspace = .ok (value, answer) workspace ∧
      workspace.builder.origins value = .ok bits ∧ lowering.after.builder.origins lowering.value = .ok bits

namespace Answered

variable {lowering : Lowering} {scene : Scene} {view : ArrayView} {action : Action}

/-- An array that an action leaves alone goes back to the same lowering as before. -/
theorem step (h : lowering.Answered scene view) (hallows : scene.Allows action) :
    lowering.Answered (scene.step action) view where
  reachable := h.reachable
  source := h.source
  run := h.run
  since := by
    obtain ⟨made, hmade, hrun⟩ := h.since
    exact ⟨made, hmade, hrun.tail hallows⟩
  view := h.view

/-- A new name does not matter. -/
theorem renamed (h : lowering.Answered scene view) {view' : ArrayView}
    (heq : view' = { view with name := view'.name }) : lowering.Answered scene view' where
  reachable := h.reachable
  source := h.source
  run := h.run
  since := h.since
  view := by
    rw [heq, h.view]

/-- What is lowered is allowed to be. -/
private theorem allows {before : Scene} {source : ArrayView} {settings : Settings} (hsource : source ∈ before.arrays)
    (hlowers : action.Lowers source settings) : before.Allows action := by
  cases hlowers <;>
  · refine ⟨trivial, ?_, List.forall_mem_singleton.mpr hsource⟩
    intro value hmem
    cases hmem

theorem reaches (h : lowering.Answered scene view) : lowering.before.Reaches scene := by
  obtain ⟨action, hlowers, hrun⟩ := h.since
  exact Relation.ReflTransGen.head ⟨action, allows h.source hlowers, rfl⟩ hrun

/-- The array notes the revision at which its store was lowered, and the store has only advanced since. -/
theorem advances (h : lowering.Answered scene view) :
    ∃ store store', lowering.before.workspace.store lowering.source.store = .ok store ∧
      scene.workspace.store view.store = .ok store' ∧ store.Advances store' ∧
      view.loweredAt = some store.revision ∧ view.store = lowering.source.store := by
  obtain ⟨-, store, hafter, hanswer⟩ := ArrayView.lower_eq_ok.mp h.run
  obtain ⟨-, builder, -, hworkspace⟩ := ArrayView.builder_of_lower h.run
  -- a lowering leaves the stores alone
  have hbefore : lowering.before.workspace.store lowering.source.store = .ok store := by
    rw [hworkspace] at hafter
    exact hafter
  have hstore : view.store = lowering.source.store := by rw [h.view, hanswer]
  obtain ⟨store', hstore', hadvances⟩ := Scene.advances_of_reaches h.reaches hbefore
  refine ⟨store, store', hbefore, ?_, hadvances, ?_, hstore⟩
  · rw [hstore]
    exact hstore'
  · rw [h.view, hanswer]

/-- The array is the one that was lowered, but for its name and the note. -/
theorem eq_source (h : lowering.Answered scene view) :
    view = { lowering.source with name := view.name, loweredAt := view.loweredAt } := by
  obtain ⟨-, store, -, hanswer⟩ := ArrayView.lower_eq_ok.mp h.run
  have hview := h.view
  rw [hanswer] at hview
  have hmark : view.loweredAt = some store.revision := congrArg ArrayView.loweredAt hview
  rw [hmark]
  exact hview

/-- As long as the array counts as lowered, its store is the one that it was lowered from. -/
theorem store_before (h : lowering.Answered scene view) {store : Store}
    (hstore : scene.workspace.store view.store = .ok store) (hlowered : view.population store = .ok .lowered) :
    lowering.before.workspace.store lowering.source.store = .ok store := by
  obtain ⟨held, store', hheld, hstore', hadvances, hmark, -⟩ := h.advances
  obtain rfl := Except.ok.inj (hstore.symm.trans hstore')
  have hrevision := ArrayView.population_eq_lowered_iff.mp hlowered
  rw [hmark, Option.some.injEq] at hrevision
  rw [hadvances.same hrevision.symm]
  exact hheld

/-- **Lowering it again** from the same store succeeds and has the same bits, whatever the settings are. -/
theorem relowers (h : lowering.Answered scene view) (hview : view ∈ scene.arrays) {store : Store}
    (hstore : scene.workspace.store view.store = .ok store)
    (hbefore : lowering.before.workspace.store lowering.source.store = .ok store) (settings : Settings) :
    ∃ value answer workspace bits, view.lower settings scene.workspace = .ok (value, answer) workspace ∧
      workspace.builder.origins value = .ok bits ∧ lowering.after.builder.origins lowering.value = .ok bits := by
  have hsound := Scene.sound_of_reachable h.reachable
  have hscene := Scene.sound_of_reachable (h.reachable.trans h.reaches)
  obtain ⟨hgrows, store', ranges, pieces, hstore', hranges, hcount, hwidths, hpieces, hcarries⟩ :=
    ArrayView.carries_of_lower hsound.workspace (hsound.made.arrays _ h.source) h.run
  obtain rfl := Except.ok.inj (hbefore.symm.trans hstore')
  have hpos : 0 < ranges.length := by
    obtain ⟨_, _, _, _, hsame, hne, -⟩ := ArrayView.lowered_eq_ok.mp (ArrayView.lower_eq_ok.mp h.run).1
    rw [hcount, Except.ok.injEq] at hsame
    omega
  have hlength : lowering.value.width = ranges.length * lowering.source.elemType.width := by
    rw [← hcarries.length]
    exact length_flatten_pieces hpieces hwidths
  have hword : ranges.length * lowering.source.elemType.width < wordBound := by
    rw [← hlength]
    exact hcarries.width_lt (hgrows.sound hsound.workspace.builder)
  -- the array reads the same elements as the one that was lowered
  have hsource := h.eq_source
  have hcount' : view.count = .ok ranges.length := by rw [hsource]; exact hcount
  have hword' : ranges.length * view.elemType.width < wordBound := by rw [hsource]; exact hword
  have hranges' : view.elements store = .ok ranges := by rw [hsource]; exact hranges
  obtain ⟨_, hfound, hfits, -⟩ := hscene.fits hview
  obtain rfl := Except.ok.inj (hstore.symm.trans hfound)
  obtain ⟨value, answer, workspace, -, hagain⟩ := ArrayView.lower_of_elements hscene.workspace hfits hstore
    settings hcount' hpos hword' hranges'
  -- and they have the bits that they had then
  obtain ⟨-, _, ranges', pieces', hfound, hranges'', -, -, hpieces', hcarries'⟩ :=
    ArrayView.carries_of_lower hscene.workspace (hscene.made.arrays _ hview) hagain
  obtain rfl := Except.ok.inj (hstore.symm.trans hfound)
  obtain rfl := Except.ok.inj (hranges'.symm.trans hranges'')
  have hsince := (hsound.extends_of_reaches h.reaches).builder
  have hsame : pieces' = pieces := forall₂_det hpieces' hpieces fun range bits bits' hbits hbits' =>
    hbits.det (hbits'.mono hsince)
  rw [hsame] at hcarries'
  exact ⟨value, answer, workspace, pieces.flatten, hagain, hcarries'.origins, hcarries.origins⟩

/-- **What was lowered is still there.** As long as the array counts as lowered, nothing was written to its store. -/
theorem current (h : lowering.Answered scene view) (hview : view ∈ scene.arrays) {store : Store}
    (hstore : scene.workspace.store view.store = .ok store) (hlowered : view.population store = .ok .lowered) :
    lowering.Current scene view := by
  have hbefore := h.store_before hstore hlowered
  refine ⟨⟨store, store, hbefore, hstore, fun offset hoffset => ?_⟩, h.relowers hview hstore hbefore⟩
  have hsound := Scene.sound_of_reachable h.reachable
  obtain ⟨-, store', ranges, -, hstore', hranges, hcount, -⟩ :=
    ArrayView.carries_of_lower hsound.workspace (hsound.made.arrays _ h.source) h.run
  obtain rfl := Except.ok.inj (hbefore.symm.trans hstore')
  have hall := (forall₂_range ((ArrayView.elements_eq_ok hcount).mp hranges)).2
  rw [h.eq_source] at hoffset ⊢
  obtain ⟨_, -, element, hfound, -⟩ := hall offset hoffset
  exact ⟨element, hfound, hfound⟩

end Answered

end Lowering

/-! ### Runs -/

namespace Scene

variable {scene later : Scene} {view : ArrayView} {action : Action} {store : Store}

/-- Each array that notes a revision goes back to a lowering. -/
def NotesLowerings (scene : Scene) : Prop :=
  ∀ view ∈ scene.arrays, view.loweredAt ≠ none → ∃ lowering : Lowering, lowering.Answered scene view

/-- **One step.** What an action makes either notes nothing, or is what a lowering answered. -/
theorem NotesLowerings.step (h : scene.NotesLowerings) (hscene : scene.Reachable) (hallows : scene.Allows action) :
    (scene.step action).NotesLowerings := by
  have hold : ∀ view ∈ scene.arrays, view.loweredAt ≠ none →
      ∃ lowering : Lowering, lowering.Answered (scene.step action) view := by
    intro view hview hmark
    obtain ⟨lowering, hanswered⟩ := h view hview hmark
    exact ⟨lowering, hanswered.step hallows⟩
  refine forall_arrays_step hold fun view hmakes hmark => ?_
  cases hmakes with
  | fresh hfresh => exact absurd hfresh.loweredAt hmark
  | derived source step hsource hstep => exact absurd (ArrayView.unmarked_of_transform hstep) hmark
  | renamed source hsource hview =>
    have hmark' : source.loweredAt ≠ none := by
      intro hnone
      rw [hview] at hmark
      exact hmark hnone
    obtain ⟨lowering, hanswered⟩ := hold source (hallows.2.2 source hsource) hmark'
    exact ⟨lowering, hanswered.renamed hview⟩
  | lowered source settings value workspace hlowers hrun =>
    exact ⟨⟨scene, source, settings, value, view, workspace⟩, hscene, hallows.2.2 source hlowers.mem_arrays, hrun,
      ⟨action, hlowers, .refl⟩, rfl⟩

/-- **A whole run.** -/
theorem notesLowerings_of_reachable (hscene : scene.Reachable) : scene.NotesLowerings := by
  obtain ⟨names, name, hrun⟩ := hscene
  have hall : scene.Reachable ∧ scene.NotesLowerings := by
    refine hrun.keeps (P := fun scene => scene.Reachable ∧ scene.NotesLowerings) (fun hallows h => ?_) ?_
    · exact ⟨h.1.step hallows, h.2.step h.1 hallows⟩
    · exact ⟨⟨names, name, .refl⟩, fun _ hmem => nomatch hmem⟩
  exact hall.2

/-- The note of an array is not later than its store. -/
theorem note_le (hscene : scene.Reachable) (hview : view ∈ scene.arrays)
    (hstore : scene.workspace.store view.store = .ok store) {note : Nat} (hnote : view.loweredAt = some note) :
    note ≤ store.revision := by
  obtain ⟨lowering, hanswered⟩ :=
    notesLowerings_of_reachable hscene view hview (by rw [hnote]; exact Option.some_ne_none note)
  obtain ⟨held, store', -, hstore', hadvances, hmark, -⟩ := hanswered.advances
  obtain rfl := Except.ok.inj (hstore.symm.trans hstore')
  rw [hnote, Option.some.injEq] at hmark
  exact hmark.trans_le hadvances.revision_le

/-- **After a write** the array never counts as lowered again: the note has been passed for good. -/
theorem not_lowered_of_write (hscene : scene.Reachable) (hview : view ∈ scene.arrays)
    (hallows : scene.Allows action) (hwrites : action.WritesTo view.store) {made : Made} {workspace : Workspace}
    (hrun : action.perform scene.workspace = .ok made workspace) (hlater : (scene.step action).Reaches later) :
    ∃ store, later.workspace.store view.store = .ok store ∧ view.population store ≠ .ok .lowered := by
  have htarget : action.target? = some view.store := by
    cases action with
    | set target coordinate value => exact congrArg some hwrites
    | assign target selection value => exact congrArg some hwrites.1
    | _ => exact hwrites.elim
  have hmoves := allOrNothing_perform (sound_of_reachable hscene) hallows htarget
  rw [hrun] at hmoves
  obtain ⟨store, written, hstore, hwritten, hlt⟩ := hmoves hwrites
  have hstep : (scene.step action).workspace.store view.store = .ok written := by
    rw [step_workspace, hrun]
    exact hwritten
  obtain ⟨store', hstore', hadvances⟩ := advances_of_reaches hlater hstep
  refine ⟨store', hstore', fun hlowered => ?_⟩
  have hnote := ArrayView.population_eq_lowered_iff.mp hlowered
  have hle : store'.revision ≤ store.revision := note_le hscene hview hstore hnote
  have hlt' : store.revision < store'.revision := calc
    _ < written.revision := hlt
    _ ≤ store'.revision := hadvances.revision_le
  omega

/-- **A write that fails** has done nothing, to no array. -/
theorem step_eq_self_of_failed (hscene : scene.Sound) (hallows : scene.Allows action) {id : StoreId}
    (htarget : action.target? = some id) {failure : Failure ArrayError} {workspace : Workspace}
    (hrun : action.perform scene.workspace = .error failure workspace) : scene.step action = scene := by
  have hnothing := allOrNothing_perform hscene hallows htarget
  rw [hrun] at hnothing
  obtain rfl : workspace = scene.workspace := hnothing
  unfold step
  rw [hrun]

/-- **The lowered state is never stale.** Take any array that somebody made, with any number of others on its store.

* If it counts as lowered, it was lowered. Whatever lowering answered it: all elements are set and are those that
  were lowered, and lowering the array again succeeds and has the same bits, whatever the settings are.
* A lowering that answers makes it count as lowered. A write to an element of its store, through whatever array,
  undoes that for good, so that it takes another lowering; a write that fails undoes nothing, for it does nothing.
* If it does not count as lowered and its elements can be counted, its population is the one that describes them. They
  can be counted unless there are none. -/
theorem lowered_never_stale (hscene : scene.Reachable) (hview : view ∈ scene.arrays) :
    ∃ store, scene.workspace.store view.store = .ok store ∧
      (view.population store = .ok .lowered →
        (∃ lowering : Lowering, lowering.Answered scene view) ∧
          ∀ lowering : Lowering, lowering.Answered scene view → lowering.Current scene view) ∧
      (∀ settings value lowered workspace,
        view.lower settings scene.workspace = .ok (value, lowered) workspace →
          ∃ store', workspace.store lowered.store = .ok store' ∧ lowered.population store' = .ok .lowered) ∧
      (∀ action made workspace later, scene.Allows action → action.WritesTo view.store →
        action.perform scene.workspace = .ok made workspace → (scene.step action).Reaches later →
          ∃ store', later.workspace.store view.store = .ok store' ∧ view.population store' ≠ .ok .lowered) ∧
      (∀ action failure workspace, scene.Allows action → action.target? ≠ none →
        action.perform scene.workspace = .error failure workspace → scene.step action = scene) ∧
      (∀ count population, view.count = .ok count → view.population store ≠ .ok .lowered →
        (view.population store = .ok population ↔ population.Describes view store)) ∧
      (0 < view.shape.prod → view.count = .ok view.shape.prod) := by
  have hsound := sound_of_reachable hscene
  obtain ⟨store, hstore, hfits, hstoreSound⟩ := hsound.fits hview
  refine ⟨store, hstore, fun hlowered => ⟨?_, ?_⟩, ?_, ?_, ?_, ?_, ?_⟩
  · have hmark := ArrayView.population_eq_lowered_iff.mp hlowered
    exact notesLowerings_of_reachable hscene view hview (by rw [hmark]; exact Option.some_ne_none _)
  · exact fun lowering hanswered => hanswered.current hview hstore hlowered
  · intro settings value lowered workspace hrun
    obtain ⟨-, store', hstore', hanswer⟩ := ArrayView.lower_eq_ok.mp hrun
    rw [hanswer]
    exact ⟨store', hstore', ArrayView.population_of_marked rfl⟩
  · intro action made workspace later hallows hwrites hrun hlater
    exact not_lowered_of_write hscene hview hallows hwrites hrun hlater
  · intro action failure workspace hallows htarget hrun
    obtain ⟨id, hid⟩ := Option.ne_none_iff_exists'.mp htarget
    exact step_eq_self_of_failed hsound hallows hid hrun
  · intro count population hcount hlowered
    have hmark : view.loweredAt ≠ some store.revision :=
      fun hmark => hlowered (ArrayView.population_of_marked hmark)
    obtain ⟨found, hfound, hdescribes⟩ :=
      ArrayView.exists_population hsound.workspace hfits hstoreSound hcount hmark
    constructor
    · intro hpopulation
      obtain rfl := Except.ok.inj (hfound.symm.trans hpopulation)
      exact hdescribes
    · intro hdescribes'
      rw [hdescribes'.unique hdescribes]
      exact hfound
  · intro hpos
    have hlt := hfits.shape_lt hstoreSound.addressable
    exact elementCount_eq hpos (hlt.trans signedBound_lt_sizeBound)

/-- The rows of the grid after they were lowered. -/
def loweredRows : ArrayView := { gridRows with loweredAt := some 1 }

/-- The grid with its lowered rows. -/
def loweredGrid : Scene :=
  grid.step (.lower gridRows {})

/-- The lowered rows hold what was lowered, until something is written through the columns. -/
theorem lowered_never_stale_loweredGrid :
    (∃ lowering : Lowering, lowering.Answered loweredGrid loweredRows ∧ lowering.Current loweredGrid loweredRows) ∧
    ∀ later, (loweredGrid.step (.set gridColumns [0, 0] ⟨gridInput, 2, 2⟩)).Reaches later →
      ∃ store, later.workspace.store ⟨0⟩ = .ok store ∧ loweredRows.population store ≠ .ok .lowered := by
  have hreachable : loweredGrid.Reachable := grid_reachable.step (by decide +kernel)
  have hview : loweredRows ∈ loweredGrid.arrays := by decide +kernel
  obtain ⟨store, hstore, hlowered, -, hwrite, -⟩ := lowered_never_stale hreachable hview
  have hgrid : loweredGrid.workspace.store loweredRows.store = .ok gridStore := by decide +kernel
  obtain rfl := Except.ok.inj (hstore.symm.trans hgrid)
  obtain ⟨⟨lowering, hanswered⟩, hcurrent⟩ := hlowered (by decide +kernel)
  have hallows : loweredGrid.Allows (.set gridColumns [0, 0] ⟨gridInput, 2, 2⟩) := by decide +kernel
  have hrun : (Action.set gridColumns [0, 0] ⟨gridInput, 2, 2⟩).perform loweredGrid.workspace
      = .ok {} (finalState ((Action.set gridColumns [0, 0] ⟨gridInput, 2, 2⟩).perform loweredGrid.workspace)) := by
    decide +kernel
  exact ⟨⟨lowering, hanswered, hcurrent lowering hanswered⟩, fun later => hwrite _ _ _ later hallows rfl hrun⟩

/-- No element is set and nothing was lowered, but the array has no population: the elements are counted from the first
axis to the last, and the first two have too many. With the empty axis in front it had one. -/
theorem no_population_of_hollowArray :
    hollow.Reachable ∧ hollowArray ∈ hollow.arrays ∧ hollow.workspace.store hollowArray.store = .ok (.empty 1 .i8) ∧
      Population.unpopulated.Describes hollowArray (.empty 1 .i8) ∧
      emptyArray.population (.empty 1 .i8) = .ok .unpopulated ∧
      hollowArray.population (.empty 1 .i8) = .error .overflow := by
  have hnone : hollowArray.shape.prod = 0 := by decide +kernel
  refine ⟨hollow_reachable, by decide +kernel, by decide +kernel, ?_,
    by decide +kernel, by decide +kernel⟩
  intro offset hlt
  rw [hnone] at hlt
  exact absurd hlt (Nat.not_lt_zero offset)

end Scene

end NetArray
