import Mathlib
import NetArray.Proofs.Netlist.Finishing

/-!
# The interface of a netlist

A caller knows a port by the text of its name; in the netlist it is a number, which depends on everything that was ever
named in the session. `Netlist.interface` lists the ports as the caller knows them.

A netlist often begins with its interface. `Builder.Opened` says what is then known of it, whatever names are in the
table: the ports are those that were declared, only they hold names, input number `n` is signal number `n`, and it
carries its own bits. A port whose name is not one of the others can be declared next (`Opened.input`,
`Opened.output`).
-/

namespace NetArray

/-- A port as its caller knows it. -/
structure Declared where
  name : String
  direction : Direction
  type : TypeId
  signal : Option SignalId
  deriving DecidableEq, Repr

/-- What the caller knows of a port. -/
def Port.declared (names : Names) (port : Port) : Checked Declared := do
  return ⟨← names.text port.name, port.direction, port.type, port.signal⟩

/-- The ports as the caller knows them. -/
def Netlist.interface (netlist : Netlist) (names : Names) : Checked (List Declared) :=
  netlist.ports.mapM (Port.declared names)

theorem Port.declared_eq_ok {names : Names} {port : Port} {declared : Declared} :
    port.declared names = .ok declared ↔ names.text port.name = .ok declared.name ∧
      port.direction = declared.direction ∧ port.type = declared.type ∧ port.signal = declared.signal := by
  unfold Port.declared
  rw [bind_eq_ok]
  constructor
  · rintro ⟨text, htext, hdeclared⟩
    obtain rfl := pure_eq_ok.mp hdeclared
    exact ⟨htext, rfl, rfl, rfl⟩
  · rintro ⟨htext, hdirection, htype, hsignal⟩
    refine ⟨declared.name, htext, ?_⟩
    rw [hdirection, htype, hsignal]
    rfl

/-- A port is known by the same name for good. -/
theorem Port.declared_mono {names names' : Names} {port : Port} {declared : Declared}
    (h : port.declared names = .ok declared) (hgrows : names.Grows names') :
    port.declared names' = .ok declared := by
  obtain ⟨htext, hrest⟩ := declared_eq_ok.mp h
  exact declared_eq_ok.mpr ⟨hgrows.text htext, hrest⟩

namespace Builder

variable {builder builder' : Builder} {types : TypeTable} {ports : List Declared} {name : String} {type : TypeId}
  {width : Nat}

/-- The ports of the netlist under construction are these, and its names and drivers are in order. -/
structure Presents (builder : Builder) (ports : List Declared) : Prop where
  named : builder.Named
  traceable : builder.Traceable
  interface : builder.finish.interface builder.names = .ok ports

/-- More names, signals and cells do not matter. -/
theorem Presents.mono (h : builder.Presents ports) (hnames : builder.KeepsNames builder')
    (htraceable : builder.KeepsTraceable builder') (hports : builder'.ports = builder.ports) :
    builder'.Presents ports where
  named := hnames.named h.named
  traceable := htraceable h.traceable
  interface := by
    have hinterface := mapM_eq_ok.mp h.interface
    refine mapM_eq_ok.mpr ?_
    change List.Forall₂ _ builder'.ports ports
    rw [hports]
    exact hinterface.imp fun port declared hport => Port.declared_mono hport hnames.grows

/-- One more port. -/
private theorem interface_concat (h : builder.finish.interface builder.names = .ok ports)
    (hnames : builder.names.Grows builder'.names) {port : Port} {declared : Declared}
    (hports : builder'.ports = builder.ports ++ [port])
    (hport : port.declared builder'.names = .ok declared) :
    builder'.finish.interface builder'.names = .ok (ports ++ [declared]) := by
  have hinterface := mapM_eq_ok.mp h
  refine mapM_eq_ok.mpr ?_
  change List.Forall₂ _ builder'.ports (ports ++ [declared])
  rw [hports]
  exact List.rel_append (hinterface.imp fun _ _ hport => Port.declared_mono hport hnames)
    (.cons hport .nil)

/-- A free output is driven by a value of its width. -/
theorem Presents.drive (h : builder.Presents ports) {place : Nat} {value : Value}
    (hport : ports[place]? = some ⟨name, .output, type, none⟩)
    (hwidth : builder.types.bitWidth type = .ok value.width) :
    ∃ builder', Build.drive ⟨place⟩ value builder = .ok () builder' ∧
      builder'.Presents (ports.set place ⟨name, .output, type, some value.signal⟩) ∧
      builder'.wiring = builder.wiring := by
  have hinterface := mapM_eq_ok.mp h.interface
  obtain ⟨entry, hentry, hdeclared⟩ := forall₂_getElem? hinterface.flip hport
  obtain ⟨htext, hdirection, htype, hfree⟩ := Port.declared_eq_ok.mp hdeclared
  have htakes : builder.Takes ⟨place⟩ value entry := ⟨hentry, hdirection, hfree, by rw [htype]; exact hwidth⟩
  refine ⟨builder.withDriven ⟨place⟩ value entry, htakes.drive htext, ⟨?_, ?_, ?_⟩, rfl⟩
  · exact h.named.withDriven hentry
  · exact h.traceable.of_eq rfl rfl
  · -- the port that was driven is still known by its name
    have hdriven : ({ entry with signal := some value.signal } : Port).declared builder.names
        = .ok ⟨name, .output, type, some value.signal⟩ :=
      Port.declared_eq_ok.mpr ⟨htext, hdirection, htype, rfl⟩
    exact mapM_eq_ok.mpr (forall₂_set hinterface hdriven place)

/-! ### Declaring ports -/

/-- Nothing was done yet but to declare these ports. -/
structure Opened (builder : Builder) (types : TypeTable) (ports : List Declared) : Prop
    extends builder.Presents ports where
  sound : builder.Sound
  types_eq : builder.types = types
  /-- Only ports hold names. -/
  holds : ∀ text, builder.Holds text → text ∈ ports.map (·.name)
  /-- Only inputs have signals. -/
  signals : builder.signals.size = (ports.filterMap (·.signal)).length
  /-- An input carries its own bits. -/
  carries : ∀ port ∈ ports, ∀ signal, port.signal = some signal → ∃ width,
    types.bitWidth port.type = .ok width ∧
      builder.Carries ⟨signal, port.type, width⟩ ((List.range width).map (.input signal))

theorem opened_start {names : Names} (hdistinct : names.Distinct) (name : String) :
    (start names name).Opened {} [] where
  named := named_start hdistinct name
  traceable := traceable_start names name
  interface := rfl
  sound := sound_start names name
  types_eq := rfl
  holds _ hholds := by
    obtain ⟨_, hmem, -⟩ := hholds
    cases hmem
  signals := rfl
  carries _ hmem := nomatch hmem

/-- Types may be added before the next port. -/
theorem Opened.withTypes (h : builder.Opened types ports) {types' : TypeTable}
    (hgrows : builder.Grows { builder with types := types' }) :
    Opened { builder with types := types' } types' ports where
  named := h.named.withTypes types'
  traceable := h.traceable
  interface := h.interface
  sound := hgrows.sound h.sound
  types_eq := rfl
  holds := h.holds
  signals := h.signals
  carries port hport signal hsignal := by
    obtain ⟨width, hwidth, hcarries⟩ := h.carries port hport signal hsignal
    rw [← h.types_eq] at hwidth
    exact ⟨width, hgrows.types.bitWidth hwidth, hcarries.mono hgrows⟩

/-- An input carries its own bits, as many as its type says. -/
theorem Opened.carries_of_mem (h : builder.Opened types ports) {signal : SignalId}
    (hmem : ⟨name, .input, type, some signal⟩ ∈ ports) (hwidth : types.bitWidth type = .ok width) :
    builder.Carries ⟨signal, type, width⟩ ((List.range width).map (.input signal)) := by
  obtain ⟨width', hwidth', hcarries⟩ := h.carries _ hmem signal rfl
  obtain rfl := Except.ok.inj (hwidth.symm.trans hwidth')
  exact hcarries

/-- A name that no port has is held by nothing. -/
private theorem Opened.notMem_holders (h : builder.Opened types ports) (hfree : name ∉ ports.map (·.name)) :
    (builder.names.intern name).1 ∉ builder.holders :=
  h.named.notMem_holders (builder.names.grows_intern name) (builder.names.text_intern name)
    fun hholds => hfree (h.holds name hholds)

/-- What inputs and outputs have in common: a port takes a name, and maybe there is a signal behind it. -/
private theorem Opened.declare (h : builder.Opened types ports) {ident : Ident} {port : Port} {declared : Declared}
    (hgives : builder.Gives builder' ident) (hgrows : builder.Grows builder') (hnamed : builder'.Named)
    (htypes : builder'.types = builder.types) (hcells : builder'.cells = builder.cells)
    (hdrivers : builder'.drivers = builder.drivers) (hports : builder'.ports = builder.ports ++ [port])
    (htext : builder'.names.text ident = .ok declared.name)
    (hdeclared : port.declared builder'.names = .ok declared)
    (hsignals : builder'.signals.size = builder.signals.size + declared.signal.toList.length)
    (hcarries : ∀ signal, declared.signal = some signal → ∃ width, types.bitWidth declared.type = .ok width ∧
      builder'.Carries ⟨signal, declared.type, width⟩ ((List.range width).map (.input signal))) :
    builder'.Opened types (ports ++ [declared]) where
  named := hnamed
  traceable := h.traceable.of_eq hcells hdrivers
  interface := interface_concat h.interface hgives.names hports hdeclared
  sound := hgrows.sound h.sound
  types_eq := htypes.trans h.types_eq
  holds text hholds := by
    rw [List.map_append, List.mem_append]
    rcases (hgives.holds_iff h.named htext text).mp hholds with rfl | hold
    · exact .inr List.mem_cons_self
    · exact .inl (h.holds text hold)
  signals := by
    rw [List.filterMap_append, List.length_append, ← h.signals, hsignals]
    cases hsignal : declared.signal <;> simp [hsignal]
  carries other hother signal hsignal := by
    rcases List.mem_append.mp hother with hold | hnew
    · obtain ⟨width, hwidth, hbits⟩ := h.carries other hold signal hsignal
      exact ⟨width, hwidth, hbits.mono hgrows⟩
    · rw [List.mem_singleton] at hnew
      subst hnew
      exact hcarries signal hsignal

/-- **Inputs.** An input of a new name is the next signal. -/
theorem Opened.input (h : builder.Opened types ports) (hfree : name ∉ ports.map (·.name))
    (hwidth : types.bitWidth type = .ok width) :
    ∃ builder', Build.input name type builder
        = .ok ⟨⟨(ports.filterMap (·.signal)).length⟩, type, width⟩ builder' ∧
      builder'.Opened types (ports ++ [⟨name, .input, type, some ⟨(ports.filterMap (·.signal)).length⟩⟩]) := by
  rw [← h.signals]
  have hnames := builder.names.grows_intern name
  set builder' := builder.withPort (builder.names.intern name).2 (builder.names.intern name).1 type
  have hrun : Build.input name type builder = .ok ⟨⟨builder.signals.size⟩, type, width⟩ builder' :=
    input_eq_ok.mpr ⟨width, by rwa [h.types_eq], rfl, rfl⟩
  have htext : builder'.names.text (builder.names.intern name).1 = .ok name := builder.names.text_intern name
  refine ⟨builder', hrun, h.declare (h.named.gives_withPort hnames _ type) ((keeps_input name type).ok hrun)
    (h.named.withPort hnames (builder.names.lt_intern name) (h.notMem_holders hfree) type) rfl rfl rfl rfl htext
    (Port.declared_eq_ok.mpr ⟨htext, rfl, rfl, rfl⟩) (Table.size_push _ _) fun signal hsignal => ?_⟩
  obtain rfl := Option.some.inj hsignal
  exact ⟨width, hwidth, carries_input h.sound hrun⟩

/-- **Outputs.** An output of a new name has no signal yet. -/
theorem Opened.output (h : builder.Opened types ports) (hfree : name ∉ ports.map (·.name))
    (hroom : ports.length < wordBound) (type : TypeId) :
    ∃ builder', Build.output name type builder = .ok ⟨ports.length⟩ builder' ∧
      builder'.Opened types (ports ++ [⟨name, .output, type, none⟩]) := by
  have hnames := builder.names.grows_intern name
  set builder' := builder.withOutput (builder.names.intern name).2 (builder.names.intern name).1 type
  have hlength : builder.ports.length = ports.length := (mapM_eq_ok.mp h.interface).length_eq
  have hrun : Build.output name type builder = .ok ⟨ports.length⟩ builder' := by
    have hid : lowWord builder.ports.length = ports.length := by rw [hlength, lowWord_of_lt hroom]
    rw [← hid]
    rfl
  have htext : builder'.names.text (builder.names.intern name).1 = .ok name := builder.names.text_intern name
  exact ⟨builder', hrun, h.declare (gives_withOutput builder hnames _ type) ((keeps_output name type).ok hrun)
    (h.named.withOutput hnames (builder.names.lt_intern name) (h.notMem_holders hfree) type) rfl rfl rfl rfl htext
    (Port.declared_eq_ok.mpr ⟨htext, rfl, rfl, rfl⟩) rfl fun _ hsignal => nomatch hsignal⟩

end Builder

end NetArray
