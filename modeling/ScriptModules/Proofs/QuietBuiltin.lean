import ScriptModules.Proofs.Quiet

/-!
# Built-in functions and the preparation of modules

The functions that call nothing, continued: the built-in methods, the look-up of the modules that a
`use` asks for, and the bindings that a module is evaluated against. The bindings include `use`
itself and perhaps timers, which may drain a queue when they are called, so their making is only
`World.Aside`. The steps of an evaluation that make, count on or release a heap leave alone what is
shared with the host; that is all that is stated of them here.
-/

namespace ScriptModules

namespace Run

variable {ε : Type} [Faults ε]

/-! ### Built-in functions -/

theorem itemTexts_quiet (items : List Value) : Within World.Quiet (itemTexts items : Run ε _) := by
  induction items with
  | nil => exact .pure
  | cons v rest ih =>
    refine .bind ?_ fun _ => .bind ih fun _ => .pure
    unfold itemText
    split
    · exact .pure
    · exact textOf_quiet v

theorem consoleText_quiet (v : Value) : Within World.Quiet (consoleText v : Run ε _) := by
  unfold consoleText
  split
  · exact .pure
  · exact .bind .formOf fun _ => .pure
  · exact .bind .formOf fun _ => .pure
  · exact textOf_quiet v

theorem consoleTexts_quiet (vs : List Value) :
    Within World.Quiet (consoleTexts vs : Run ε _) := by
  induction vs with
  | nil => exact .pure
  | cons v rest ih => exact .bind (consoleText_quiet v) fun _ => .bind ih fun _ => .pure

end Run

namespace ListMethod

theorem pushAll_quiet (l : Ref .list) (arguments : Array Value) :
    Run.Within World.Quiet (pushAll l arguments) := by
  intro w
  unfold pushAll
  -- beyond the limit nothing is added
  by_cases h : listLimit < (w.items l).size + arguments.size
  · simp only [if_pos h]
    exact ⟨trivial, Std.Refl.refl w⟩
  · simp only [if_neg h]
    exact w.changeItems_quiet l _

theorem joinItems_quiet (l : Ref .list) (separator : Option Value) :
    Run.Within World.Quiet (joinItems l separator) := by
  -- the separator is looked at first, and then the items
  have joined : ∀ s : String, Run.Within World.Quiet (do
      let items ← Run.read (·.items l)
      return Value.text (Text.joined s (← Run.itemTexts items.toList)) : Script Value) := fun s =>
    .bind .read fun _ => .bind (Run.itemTexts_quiet _) fun _ => .pure
  unfold joinItems
  split
  · exact .bind .pure joined
  · exact .bind .pure joined
  · exact .bind (Run.textOf_quiet _) joined

theorem indexOfItem_quiet (l : Ref .list) (needle : Value) :
    Run.Within World.Quiet (indexOfItem l needle) := by
  refine .bind .read fun items => ?_
  split
  · exact .pure
  · exact .pure

end ListMethod

theorem TextMethod.invoke_quiet (m : TextMethod) (s : String) (arguments : Array Value) :
    Run.Within World.Quiet (m.invoke s arguments) := by
  cases m with
  | indexOf =>
    simp only [TextMethod.invoke]
    cases arguments[0]? with
    | none => exact .pure
    | some v => exact .bind (Run.textOf_quiet v) fun _ => .pure
  | _ => exact .pure

theorem ConsoleMethod.invoke_quiet (m : ConsoleMethod) (script : String)
    (arguments : Array Value) : Run.Within World.Quiet (m.invoke script arguments) :=
  .bind (Run.consoleTexts_quiet _) fun _ => .bind (Run.log_quiet _) fun _ => .pure

/-- A function of the host ends, and fails only with the error that the host gave it. -/
theorem HostFunction.invoke_ends (h : HostFunction) (this : Value) (arguments : Array Value)
    (w : World) : ∃ r w', h.invoke this arguments w = Run.ofExcept r w' ∧ World.Quiet w w' ∧
      ∀ e, r = .error e → h.fails = some e := by
  obtain ⟨name, fails, returns⟩ := h
  cases fails with
  | some e =>
    refine ⟨.error e, _, rfl, w.note_quiet _, fun e' he => ?_⟩
    rw [Except.error.inj he]
  | none =>
    cases returns with
    | some v => exact ⟨.ok v, _, rfl, w.note_quiet _, fun _ => nofun⟩
    | none => exact ⟨.ok _, _, rfl, w.note_quiet _, fun _ => nofun⟩

/-- A function of the host keeps what quiet changes keep. -/
theorem HostFunction.invoke_keeps {P E : World → Prop} (hP : ∀ w w', World.Quiet w w' → P w → P w')
    (h : HostFunction) (this : Value) (arguments : Array Value) :
    Run.Keeps P E (h.invoke this arguments) := by
  intro w hw
  obtain ⟨r, w', hr, hq, -⟩ := h.invoke_ends this arguments w
  rw [hr]
  cases r with
  | ok v => exact hP w w' hq hw
  | error e => exact hP w w' hq hw

/-! ### Looking up modules -/

namespace Resolver

variable (r : Resolver)

theorem callerIn_quiet {ε : Type} [Faults ε] (b : Bindings) (names : List String) :
    Run.Within World.Quiet (r.callerIn b names : Run ε _) := by
  induction names with
  | nil => exact .pure
  | cons name rest ih =>
    refine .bind (b.getText?_quiet name) fun t => ?_
    split
    · exact .pure
    · exact ih

theorem lookupContext_quiet {ε : Type} [Faults ε] (b : Bindings) :
    Run.Within World.Quiet (r.lookupContext b : Run ε _) :=
  .bind (r.callerIn_quiet b _) fun _ => .bind (b.getText?_quiet _) fun _ => .pure

theorem logNotes_quiet {ε : Type} [Faults ε] (notes : List Note) :
    Run.Within World.Quiet (Run.logNotes notes : Run ε Unit) := by
  refine .change fun w => ?_
  induction notes generalizing w with
  | nil => exact Std.Refl.refl w
  | cons n rest ih => exact IsTrans.trans _ _ _ (w.note_quiet (.resolver n)) (ih _)

/-- The look-up of a module fails in ways of its own. -/
theorem resolve_own (context : LookupContext) (dependency : String) {e : HostError}
    (he : (r.resolve context dependency).value = .error e) : Faults.own e := by
  unfold resolve at he
  split at he
  · obtain rfl := Except.error.inj he
    trivial
  · rw [Noted.value_bind] at he
    cases hfound : (r.locate context dependency).value with
    | none =>
      rw [hfound] at he
      obtain rfl := Except.error.inj he
      trivial
    | some found =>
      rw [hfound] at he
      dsimp only at he
      rw [Noted.value_bind] at he
      -- a resource without a text cannot be read, and one with a text is no error
      cases hcontent : found.content with
      | none =>
        rw [hcontent] at he
        obtain rfl := Except.error.inj he
        trivial
      | some content =>
        rw [hcontent] at he
        cases he

theorem find_quiet (context : LookupContext) (dependency : String) :
    Run.Within World.Quiet (r.find context dependency) := by
  have hfind : r.find context dependency = (do
      Run.logNotes (r.resolve context dependency).notes
      Run.ofExcept (r.resolve context dependency).value) := rfl
  rw [hfind]
  refine .bind (logNotes_quiet _) fun _ => .ofExcept fun e he => ?_
  exact r.resolve_own context dependency he

theorem findAll_quiet (context : LookupContext) (dependencies : List String) :
    Run.Within World.Quiet (r.findAll context dependencies) := by
  induction dependencies with
  | nil => exact .pure
  | cons d rest ih => exact .bind (r.find_quiet context d) fun _ => .bind ih fun _ => .pure

end Resolver

namespace UseSite

variable (site : UseSite)

theorem script_quiet : Run.Within World.Quiet site.script :=
  .bind (site.globals.getText?_quiet _) fun _ => .pure

theorem textsOf_quiet (vs : List Value) :
    Run.Within World.Quiet (dependencyNames.textsOf vs) := by
  induction vs with
  | nil => exact .pure
  | cons v rest ih => exact .bind (Run.textOf_quiet v) fun _ => .bind ih fun _ => .pure

theorem dependencyNames_quiet (v : Value) : Run.Within World.Quiet (dependencyNames v) := by
  unfold dependencyNames
  split
  · exact .bind .read fun _ => textsOf_quiet _
  · exact .bind (Run.textOf_quiet _) fun _ => .pure

theorem callbackOf_quiet (v : Value) : Run.Within World.Quiet (callbackOf v) := by
  unfold callbackOf
  split
  · exact .pure
  · exact .fail trivial

theorem liveEnvironment_quiet : Run.Within World.Quiet site.liveEnvironment := by
  refine .bind .read fun e => ?_
  split
  · exact .pure
  · exact .fail trivial

theorem liveContext_quiet : Run.Within World.Quiet site.liveContext := by
  refine .bind .read fun b => ?_
  split
  · exact .pure
  · exact .fail trivial

end UseSite

/-! ### Preparing a module -/

namespace Run

variable {ε : Type} [Faults ε]

theorem aside_of_quiet {α : Type} {x : Run ε α} (h : Within World.Quiet x) :
    Within World.Aside x :=
  h.mono fun _ _ => World.Quiet.toAside

theorem newFunction_aside {f : Callable} (hf : ∀ c, f ≠ .closure c) :
    Within World.Aside (newFunction f : Run ε _) :=
  .changeGet fun w => w.addFunction_aside f hf

theorem newCell_aside (s : Supplier) : Within World.Aside (newCell s : Run ε _) :=
  .changeGet fun _ =>
    { toSameShared := ⟨rfl, rfl, rfl, rfl, rfl, rfl⟩
      scopes := rfl
      heaps := rfl
      cells := fun _ x hx => ⟨x, Table.get?_add_of_get?_eq_some _ hx, .same⟩
      closures := fun _ _ => id }

theorem newHeap_shared : Within World.SameShared (newHeap : Run ε _) :=
  .changeGet fun _ => ⟨rfl, rfl, rfl, rfl, rfl, rfl⟩

theorem newRootScope_shared (b : Bindings) (h : Ref .heap) :
    Within World.SameShared (newRootScope b h : Run ε _) :=
  fun _ => ⟨rfl, rfl, rfl, rfl, rfl, rfl⟩

theorem enterCall_shared (h : Ref .heap) : Within World.SameShared (enterCall h) := by
  intro w
  unfold enterCall
  by_cases hd : callLimit ≤ w.depth h
  · simp only [if_pos hd]
    exact ⟨trivial, Std.Refl.refl w⟩
  · simp only [if_neg hd]
    exact ⟨rfl, rfl, rfl, rfl, rfl, rfl⟩

end Run

namespace World

theorem leaveCall_shared (w : World) (h : Ref .heap) : SameShared w (w.leaveCall h) :=
  ⟨rfl, rfl, rfl, rfl, rfl, rfl⟩

theorem release_shared (w : World) (h : Ref .heap) : SameShared w (w.release h) := by
  obtain ⟨table, htable⟩ := w.release_eq h
  rw [htable]
  exact ⟨rfl, rfl, rfl, rfl, rfl, rfl⟩

end World

theorem Exports.fresh_aside {ε : Type} [Faults ε] : Run.Within World.Aside (Exports.fresh : Run ε _) :=
  Run.aside_of_quiet
    (.bind Run.newFlag_quiet fun _ => .bind (Run.newObject_quiet _) fun _ =>
      .bind (Run.newObject_quiet _) fun _ => .pure)

theorem Provider.provide_aside {ε : Type} [Faults ε] (context : Ref .context) (p : Provider) :
    Run.Within World.Aside (p.provide context : Run ε _) := by
  cases p with
  | timing => exact .bind (Run.newCell_aside _) fun _ => .bind (Run.newCell_aside _) fun _ => .pure
  | host b => exact .bind (Run.aside_of_quiet (Run.log_quiet _)) fun _ => .pure

theorem Bindings.extendProvided_aside {ε : Type} [Faults ε] (context : Ref .context) (b : Bindings)
    (providers : List Provider) :
    Run.Within World.Aside (b.extendProvided context providers : Run ε _) := by
  induction providers generalizing b with
  | nil => exact .pure
  | cons p rest ih => exact .bind (p.provide_aside context) fun _ => ih _

theorem newConsoleMethods_aside {ε : Type} [Faults ε] (script : String)
    (methods : List ConsoleMethod) :
    Run.Within World.Aside (newConsoleMethods script methods : Run ε _) := by
  induction methods with
  | nil => exact .pure
  | cons m rest ih => exact .bind (Run.newFunction_aside nofun) fun _ => .bind ih fun _ => .pure

theorem newConsole_aside {ε : Type} [Faults ε] (script : String) :
    Run.Within World.Aside (newConsole script : Run ε Value) := by
  unfold newConsole
  -- which methods the console has does not matter, and the table is long
  generalize consoleMethods = methods
  exact .bind (newConsoleMethods_aside script methods) fun _ =>
    .bind (Run.aside_of_quiet (Run.newObject_quiet _)) fun _ => .pure

-- what uses a console needs only the lemma above; unfolding one makes all its methods
attribute [local irreducible] newConsole

theorem Environment.moduleBindings_aside {ε : Type} [Faults ε] (r : Ref .environment) (e : Environment)
    (context : Ref .context) (source : ModuleSource) (globals arguments : Bindings) (x : Exports) :
    Run.Within World.Aside
      (e.moduleBindings r context source globals arguments x : Run ε _) :=
  .bind (Bindings.extendProvided_aside context _ _) fun _ =>
    .bind (newConsole_aside source.name) fun _ =>
      .bind (Run.aside_of_quiet arguments.toObject_quiet) fun _ =>
        .bind (Run.newFunction_aside nofun) fun _ => .bind .read fun _ => .pure

end ScriptModules
