import ScriptModules.Proofs.Stories
import ScriptModules.Proofs.Use

/-!
# How faults cross scripts

A task runs code of scripts inside of code of the host, and the other way round: scripts call functions of
the host, `use` and the timers, and their callbacks run when containers are completed, in the name of yet
another script. A fault crosses all of that. An error of the host comes out as it is. Any other fault comes
out wrapped once, with the name of the script in whose name the code ran (`Machine.faults_cross`).

What is said of a task is said of the moments that it adds to the history. There a fault is seen where it
is raised by a function that calls into the host, wherever a call of a script fails with it, and where the
code ends that ran in the name of a script. `firstFault` finds the first one of which the task hears: what
fails inside of an action of the host, of which the host gets an answer, is not among them.
-/

namespace ScriptModules

/-! ### Reading a history -/

/-- A fault, as it is seen in a history. -/
inductive Fault where
  /-- In code that runs in the name of a script. -/
  | inScript (script : String) (e : ScriptError)
  /-- Reported around the code of scripts. -/
  | around (e : HostError)
deriving DecidableEq

/-- **What a fault is to the host:** an error of the host is itself, and any other is the fault of a
script. -/
def Fault.error : Fault → HostError
  | .inScript _ (.host e) => e
  | .inScript script e => .scriptEvaluation script e
  | .around e => e

theorem Fault.error_inScript (script : String) (e : ScriptError) :
    (Fault.inScript script e).error = HostError.ofScript script e := by
  cases e <;> rfl

namespace Moment

/-- The names in which code runs after the moment, the innermost first. -/
def namesAfter : Moment → List String → List String
  | .call (.begun script), names => script :: names
  | .call (.ended ..), names => names.tail
  | _, names => names

/-- How many actions of the host are under way after the moment. -/
def actionsAfter : Moment → Nat → Nat
  | .call .acting, k => k + 1
  | .call (.answered _), k => k - 1
  | _, k => k

/-- The fault of a script's call. -/
def callFault? : Moment → Option ScriptError
  | .call (.raised _ e) | .call (.failed e) => some e
  | _ => none

/-- The fault that is seen in a moment while code runs in the names. -/
def fault? (names : List String) : Moment → Option Fault
  | .call (.ended script (some e)) => some (.inScript script e)
  | .call (.supplied e) => some (.around e)
  | .call m => (Moment.call m).callFault?.bind fun e => names.head?.map (.inScript · e)
  | m => m.reported.map .around

/-- The error of the host in a moment. -/
def hostError? : Moment → Option HostError
  | .call (.raised _ (.host e)) | .call (.failed (.host e)) | .call (.ended _ (some (.host e)))
  | .call (.supplied e) | .call (.answered (.error e)) => some e
  | m => m.reported

/-- On the way out of calls, which all fail with the same fault. -/
def Carries (e : ScriptError) (m : Moment) : Prop :=
  m = .call .left ∨ m.callFault? = some e

end Moment

/-- **The first fault** of which one hears who begins to read while code runs in the names and a number
of the host's actions is under way. -/
def firstFault : List String → Nat → List Moment → Option Fault
  | _, _, [] => none
  | names, 0, m :: ms => (m.fault? names).or (firstFault (m.namesAfter names) (m.actionsAfter 0) ms)
  | names, k + 1, m :: ms => firstFault (m.namesAfter names) (m.actionsAfter (k + 1)) ms

/-- **The fault goes on as it is:** there is nothing but the end of calls that fail with it, until the
code ends that ran in the name of a script. -/
def Arrives (e : ScriptError) (ms : List Moment) : Prop :=
  ∃ passing script later, ms = passing ++ .call (.ended script (some e)) :: later ∧
    ∀ m ∈ passing, m.Carries e

/-- The host gave the error to a function or to code of its own. -/
def GivenIn (ms : List Moment) (e : HostError) : Prop :=
  .call (.supplied e) ∈ ms ∨ ∃ h, .call (.raised (.host h) (.host e)) ∈ ms

/-- **How faults come out of a task** that adds the moments to the history and ends with an error, if
it does. -/
structure Crosses (ms : List Moment) (o : Option HostError) : Prop where
  /-- The task fails with what the first fault is to the host; if there is none, it succeeds or fails
  around scripts. -/
  first : match firstFault [] 0 ms with
    | some f => o = some f.error
    | none => ∀ e, o = some e → Faults.own e
  /-- A fault in a script goes on as it is. -/
  carried : ∀ before m after e, ms = before ++ m :: after → m.callFault? = some e → Arrives e after
  /-- A fault of a script is not wrapped again, and no error of the host is wrapped. -/
  wrapped : ∀ script c, (o = some (.scriptEvaluation script c) ∨
    ∃ m ∈ ms, m.hostError? = some (.scriptEvaluation script c)) →
    (∀ e, c ≠ .host e) ∨ GivenIn ms (.scriptEvaluation script c)

/-! ### The first fault -/

section

variable {names : List String} {ms ms' : List Moment} {m : Moment} {f : Fault}

/-- Nothing is seen in the moments. -/
def Skips (names : List String) (ms : List Moment) : Prop :=
  ∀ rest, firstFault names 0 (ms ++ rest) = firstFault names 0 rest

/-- The fault is the first that is seen in the moments. -/
def Shows (names : List String) (ms : List Moment) (f : Fault) : Prop :=
  ∀ rest, firstFault names 0 (ms ++ rest) = some f

/-- Inside of an action of the host nothing is seen. -/
def Hides (names : List String) (ms : List Moment) : Prop :=
  ∀ k rest, firstFault names (k + 1) (ms ++ rest) = firstFault names (k + 1) rest

theorem Skips.nil : Skips names [] := fun _ => rfl

theorem Skips.append (h : Skips names ms) (h' : Skips names ms') : Skips names (ms ++ ms') :=
  fun rest => by rw [List.append_assoc, h, h']

theorem Skips.shows (h : Skips names ms) (h' : Shows names ms' f) : Shows names (ms ++ ms') f :=
  fun rest => by rw [List.append_assoc, h, h']

theorem Shows.append (h : Shows names ms f) (ms' : List Moment) : Shows names (ms ++ ms') f :=
  fun rest => by rw [List.append_assoc, h]

theorem Hides.nil : Hides names [] := fun _ _ => rfl

theorem Hides.append (h : Hides names ms) (h' : Hides names ms') : Hides names (ms ++ ms') :=
  fun k rest => by rw [List.append_assoc, h, h']

/-- A moment that neither begins nor ends anything. -/
structure Moment.Plain (m : Moment) : Prop where
  names : ∀ names, m.namesAfter names = names
  actions : ∀ k, m.actionsAfter k = k

theorem Moment.Plain.hides (h : m.Plain) : Hides names [m] := by
  intro k rest
  show firstFault (m.namesAfter names) (m.actionsAfter (k + 1)) rest = _
  rw [h.names, h.actions]

theorem Moment.Plain.skips (h : m.Plain) (hm : m.fault? names = none) : Skips names [m] := by
  intro rest
  show (m.fault? names).or (firstFault (m.namesAfter names) (m.actionsAfter 0) rest) = _
  rw [h.names, h.actions, hm, Option.none_or]

theorem shows_of_fault (hm : m.fault? names = some f) : Shows names [m] f := by
  intro rest
  show (m.fault? names).or _ = _
  rw [hm, Option.some_or]

/-- What happens to a queue, a container or a gathering is plain, and shows what is reported of it. -/
theorem Moment.plain_of_not_call (h : m.ofCalls = false) :
    m.Plain ∧ ∀ names, m.fault? names = m.reported.map .around := by
  cases m with
  | call k => cases h
  | queue | container | gathering => exact ⟨⟨fun _ => rfl, fun _ => rfl⟩, fun _ => rfl⟩

/-- **What a reader learns of the error** that the moments end with: it is that of the first fault that is
seen in them; or else nothing is seen in them, and the error is of the kind `u` or there is none. -/
structure Reads (u : HostError → Prop) (names : List String) (ms : List Moment) (o : Option HostError) :
    Prop where
  hidden : Hides names ms
  seen : match o with
    | none => Skips names ms
    | some e => u e ∧ Skips names ms ∨ ∃ f, f.error = e ∧ Shows names ms f

namespace Reads

variable {u u' : HostError → Prop} {o o' : Option HostError} {e : HostError}

theorem nil : Reads u names [] none := ⟨.nil, .nil⟩

theorem unseen (he : u e) : Reads u names [] (some e) := ⟨.nil, .inl ⟨he, .nil⟩⟩

theorem mono (h : Reads u names ms o) (hu : ∀ e, u e → u' e) : Reads u' names ms o := by
  refine ⟨h.hidden, ?_⟩
  cases o with
  | none => exact h.seen
  | some e => exact h.seen.imp (And.imp_left (hu e)) id

theorem seq (h : Reads u names ms none) (h' : Reads u names ms' o) : Reads u names (ms ++ ms') o := by
  refine ⟨h.hidden.append h'.hidden, ?_⟩
  cases o with
  | none => exact h.seen.append h'.seen
  | some e =>
    rcases h'.seen with ⟨he, hskips⟩ | ⟨f, hf, hshows⟩
    · exact .inl ⟨he, h.seen.append hskips⟩
    · exact .inr ⟨f, hf, h.seen.shows hshows⟩

/-- A moment in which nothing is seen. -/
theorem plain (hm : m.Plain) (hf : m.fault? names = none) : Reads u names [m] none :=
  ⟨hm.hides, hm.skips hf⟩

/-- A moment in which nothing is seen changes nothing. -/
theorem append_plain (h : Reads u names ms o) (hm : m.Plain) (hf : m.fault? names = none) :
    Reads u names (ms ++ [m]) o := by
  refine ⟨h.hidden.append hm.hides, ?_⟩
  cases o with
  | none => exact h.seen.append (hm.skips hf)
  | some e =>
    rcases h.seen with ⟨he, hskips⟩ | ⟨f, hf', hshows⟩
    · exact .inl ⟨he, hskips.append (hm.skips hf)⟩
    · exact .inr ⟨f, hf', hshows.append [m]⟩

/-- An error that was seen or not is seen with the next fault that comes to it. -/
theorem append_fault (h : Reads u names ms (some e)) (hm : m.Plain) (hf : m.fault? names = some f)
    (he : f.error = e) (h' : Hides names ms') : Reads u' names (ms ++ m :: ms') (some e) := by
  rw [List.append_cons]
  refine ⟨(h.hidden.append hm.hides).append h', .inr ?_⟩
  -- a fault that was seen before stays the first, and has the same error
  rcases h.seen with ⟨-, hskips⟩ | ⟨f', hf', hshows⟩
  · exact ⟨f, he, (hskips.shows (shows_of_fault hf)).append ms'⟩
  · exact ⟨f', hf', (hshows.append [m]).append ms'⟩

/-- What is reported is seen, and the first error counts. -/
theorem reports (h : Reads u names ms o) (hm : m.ofCalls = false) (hr : m.reported = o)
    (h' : Reads u names ms' o') : Reads u names (ms ++ m :: ms') (o.or o') := by
  obtain ⟨hplain, hfault⟩ := m.plain_of_not_call hm
  rw [hr] at hfault
  cases o with
  | none =>
    rw [List.append_cons]
    exact (h.append_plain hplain (hfault names)).seq h'
  | some e => exact h.append_fault hplain (hfault names) rfl h'.hidden

/-- Code that ran in a name is over. Its fault is seen at the latest now, and the names are those that
there were before. -/
theorem inName {script : String} {o : Option ScriptError}
    (h : Reads u (script :: names) ms (o.map (HostError.ofScript script))) :
    Reads u' names (.call (.begun script) :: (ms ++ [.call (.ended script o)]))
      (o.map (HostError.ofScript script)) := by
  -- to begin only adds the name, and to end takes it away again
  have hbegins : ∀ k rest, firstFault names k
      (.call (.begun script) :: (ms ++ [.call (.ended script o)]) ++ rest) =
        firstFault (script :: names) k (ms ++ (.call (.ended script o) :: rest)) := by
    intro k rest
    rw [List.cons_append, List.append_assoc]
    cases k <;> rfl
  constructor
  · intro k rest
    rw [hbegins, h.hidden]
    rfl
  · cases o with
    | none =>
      intro rest
      rw [hbegins, h.seen]
      rfl
    | some e =>
      rcases h.seen with ⟨-, hskips⟩ | ⟨f, hf, hshows⟩
      · refine .inr ⟨.inScript script e, Fault.error_inScript script e, fun rest => ?_⟩
        rw [hbegins, hskips]
        rfl
      · exact .inr ⟨f, hf, fun rest => by rw [hbegins, hshows]⟩

/-- An action of the host is over, of which nothing is seen. -/
theorem acting (h : Hides names ms) (result : Except HostError Unit) :
    Reads u names (.call .acting :: (ms ++ [.call (.answered result)])) none := by
  have hacts : ∀ k rest, firstFault names k
      (.call .acting :: (ms ++ [.call (.answered result)]) ++ rest) = firstFault names k rest := by
    intro k rest
    -- what is inside is read with one more action under way, and so is hidden
    have hbegins : firstFault names k
        (.call .acting :: (ms ++ [.call (.answered result)]) ++ rest) =
          firstFault names (k + 1) (ms ++ (.call (.answered result) :: rest)) := by
      rw [List.cons_append, List.append_assoc]
      cases k <;> rfl
    rw [hbegins, h]
    rfl
  exact ⟨fun k => hacts (k + 1), hacts 0⟩

end Reads

/-- What is read of the error that code of a script ends with, in the name of whatever script. -/
def Decides (ms : List Moment) (o : Option ScriptError) : Prop :=
  ∀ script names, Reads (fun _ => True) (script :: names) ms (o.map (HostError.ofScript script))

/-- What is read of the error that code of the host ends with. -/
def DecidesAround (ms : List Moment) (o : Option HostError) : Prop :=
  ∀ names, Reads Faults.own names ms o

/-- What happens to calls is plain, apart from their being made in a name or by the host. -/
theorem Decides.raise {e : ScriptError} (h : Decides ms (some e)) (hm : m.Plain)
    (hf : m.callFault? = some e) (hc : ∀ names, m.fault? names =
      m.callFault?.bind fun e => names.head?.map (.inScript · e)) : Decides (ms ++ [m]) (some e) := by
  intro script names
  refine (h script names).append_fault hm (f := .inScript script e) ?_
    (Fault.error_inScript script e) .nil
  rw [hc, hf]
  rfl

theorem decides_telling : Telling Decides where
  done _ _ := .nil
  own _ _ _ := .unseen trivial
  seq h h' script names := (h script names).seq (h' script names)

/-- **The first fault decides.** -/
theorem decides_narration : Narration Decides DecidesAround where
  script := decides_telling
  host :=
    { done := fun _ => .nil
      own := fun he _ => .unseen he
      seq := fun h h' names => (h names).seq (h' names) }
  call revisits h script names :=
    Reads.seq (.plain (m := .call (.entered revisits)) ⟨fun _ => rfl, fun _ => rfl⟩ rfl)
      ((h script names).append_plain (m := .call .left) ⟨fun _ => rfl, fun _ => rfl⟩ rfl)
  noticed h := h.raise ⟨fun _ => rfl, fun _ => rfl⟩ rfl fun _ => rfl
  thrown _ := (decides_telling.seq decides_telling.done fun _ _ => .unseen trivial).raise
    ⟨fun _ => rfl, fun _ => rfl⟩ rfl fun _ => rfl
  raised _ h := h.raise ⟨fun _ => rfl, fun _ => rfl⟩ rfl fun _ => rfl
  hosted {ms o} h script names := by
    have hread := (h (script :: names)).mono fun _ _ => trivial
    cases o with
    | none => exact hread
    | some e => exact hread
  supplied {e} names :=
    have hread : Reads (fun _ => True) names [] (some e) := .unseen trivial
    hread.append_fault ⟨fun _ => rfl, fun _ => rfl⟩ rfl rfl .nil
  reports h hm hr h' names := (h names).reports hm hr (h' names)
  passes {ms o m} h hm hr names := by
    obtain ⟨hplain, hfault⟩ := m.plain_of_not_call hm
    rw [hr] at hfault
    exact (h names).append_plain hplain (hfault names)
  inName script h names := (h script names).inName
  unread {script text} names :=
    have hread : Reads (fun _ => True) (script :: names) []
        ((some (.badSyntax text)).map (HostError.ofScript script)) := .unseen trivial
    hread.inName
  acting result h names := .acting (h names).hidden result

end

/-! ### On the way out -/

theorem Arrives.append {e : ScriptError} {ms : List Moment} (h : Arrives e ms) (ms' : List Moment) :
    Arrives e (ms ++ ms') := by
  obtain ⟨passing, script, later, rfl, hp⟩ := h
  exact ⟨passing, script, later ++ ms', by rw [List.append_assoc, List.cons_append], hp⟩

/-- Every fault of a call arrives. -/
def Carried : List Moment → Prop
  | [] => True
  | m :: ms => (∀ e, m.callFault? = some e → Arrives e ms) ∧ Carried ms

/-- Every fault of a call arrives, or it is this one, which is still on its way. -/
def CarriedBut (e : ScriptError) : List Moment → Prop
  | [] => True
  | m :: ms => (∀ e', m.callFault? = some e' → Arrives e' ms ∨ e' = e ∧ ∀ m ∈ ms, m.Carries e) ∧
      CarriedBut e ms

section

variable {ms ms' : List Moment} {m : Moment} {e : ScriptError}

theorem Carried.append (h : Carried ms) (h' : Carried ms') : Carried (ms ++ ms') := by
  induction ms with
  | nil => exact h'
  | cons m ms ih => exact ⟨fun e he => (h.1 e he).append ms', ih h.2⟩

theorem Carried.appendBut (h : Carried ms) (h' : CarriedBut e ms') : CarriedBut e (ms ++ ms') := by
  induction ms with
  | nil => exact h'
  | cons m ms ih => exact ⟨fun e he => .inl ((h.1 e he).append ms'), ih h.2⟩

theorem Carried.but (h : Carried ms) : CarriedBut e ms := List.append_nil ms ▸ h.appendBut trivial

/-- It goes on its way when a call ends with it. -/
theorem CarriedBut.carry (h : CarriedBut e ms) (hm : m.Carries e) : CarriedBut e (ms ++ [m]) := by
  induction ms with
  | nil =>
    refine ⟨fun e' he' => .inr ⟨?_, fun _ => nofun⟩, trivial⟩
    rcases hm with rfl | hm
    · cases he'
    · exact Option.some.inj (he'.symm.trans hm)
  | cons _ ms ih =>
    -- what arrived has arrived; what was on its way is so with one call less to leave
    refine ⟨fun e' he' => (h.1 e' he').imp (fun ha => ha.append [m]) ?_, ih h.2⟩
    rintro ⟨rfl, hall⟩
    refine ⟨rfl, fun k hk => ?_⟩
    rcases List.mem_append.mp hk with hk | hk
    · exact hall k hk
    · exact List.mem_singleton.mp hk ▸ hm

/-- It arrives when the code ends. -/
theorem CarriedBut.arrive (h : CarriedBut e ms) (script : String) :
    Carried (ms ++ [.call (.ended script (some e))]) := by
  induction ms with
  | nil => exact ⟨nofun, trivial⟩
  | cons m ms ih =>
    refine ⟨fun e' he' => ?_, ih h.2⟩
    rcases h.1 e' he' with ha | ⟨rfl, hall⟩
    · exact ha.append _
    · exact ⟨ms, script, [], rfl, hall⟩

theorem Carried.of_none (hm : m.callFault? = none) (h : Carried ms) : Carried (m :: ms) :=
  ⟨fun _ he => absurd (hm.symm.trans he) nofun, h⟩

theorem Carried.of_split (h : Carried ms) {before after : List Moment}
    (hms : ms = before ++ m :: after) (hm : m.callFault? = some e) : Arrives e after := by
  subst hms
  induction before with
  | nil => exact h.1 e hm
  | cons k before ih => exact ih h.2

end

/-- What code of a script tells of faults on their way. -/
def CarriedOut (ms : List Moment) : Option ScriptError → Prop
  | none => Carried ms
  | some e => CarriedBut e ms

/-- **Faults go on as they are.** -/
theorem carried_narration : Narration CarriedOut fun ms _ => Carried ms where
  -- a fault stops what it happens in, so that only the last part may leave one on its way
  script :=
    { done := trivial
      own := fun _ => trivial
      seq := fun {ms ms' o} h h' => by
        cases o with
        | none => exact Carried.append h h'
        | some e => exact Carried.appendBut h h' }
  host :=
    { done := trivial
      own := fun _ => trivial
      seq := .append }
  call {ms o} revisits h := by
    cases o with
    | none => exact .of_none rfl (h.append ⟨nofun, trivial⟩)
    | some e => exact ⟨nofun, CarriedBut.carry h (.inl rfl)⟩
  noticed h := CarriedBut.carry h (.inr rfl)
  thrown _ := CarriedBut.carry (show CarriedBut _ [] from trivial) (.inr rfl)
  raised _ h := CarriedBut.carry h (.inr rfl)
  hosted {ms o} h := by
    cases o with
    | none => exact h
    | some e => exact h.but
  supplied := ⟨nofun, trivial⟩
  reports {ms o m ms' o'} h hm _ h' := by
    refine h.append (.of_none ?_ h')
    cases m with
    | call k => cases hm
    | _ => rfl
  passes {ms o m} h hm _ := by
    refine h.append (.of_none ?_ trivial)
    cases m with
    | call k => cases hm
    | _ => rfl
  inName {ms o} script h := by
    cases o with
    | none => exact .of_none rfl (h.append ⟨nofun, trivial⟩)
    | some e => exact .of_none rfl (CarriedBut.arrive h script)
  unread := ⟨nofun, nofun, trivial⟩
  acting result h := .of_none rfl (h.append ⟨nofun, trivial⟩)

/-! ### Where errors come from -/

/-- Where an error of the host comes from: it arises around scripts, it is the fault of a script, which
is not an error of the host, or the host gave it to its own code. -/
def ComesFrom (ms : List Moment) (e : HostError) : Prop :=
  Faults.own e ∨
    (∃ script c, e = .scriptEvaluation script c ∧ (∀ e', c ≠ .host e')) ∨ GivenIn ms e

theorem ComesFrom.mono {ms ms' : List Moment} {e : HostError} (h : ComesFrom ms e) (hms : ms ⊆ ms') :
    ComesFrom ms' e := by
  rcases h with h | h | h | ⟨f, h⟩
  · exact .inl h
  · exact .inr (.inl h)
  · exact .inr (.inr (.inl (hms h)))
  · exact .inr (.inr (.inr ⟨f, hms h⟩))

/-- The fault of a script, as the host sees it. -/
theorem comesFrom_ofScript {ms : List Moment} {script : String} {c : ScriptError}
    (h : ∀ e, c = .host e → ComesFrom ms e) : ComesFrom ms (HostError.ofScript script c) := by
  cases c with
  | host e => exact h e rfl
  | _ => exact .inr (.inl ⟨script, _, rfl, nofun⟩)

/-- The error of the host that a fault is. -/
def ScriptError.cause? : ScriptError → Option HostError
  | .host e => some e
  | _ => none

theorem ScriptError.eq_host {c : ScriptError} {e : HostError} (h : c.cause? = some e) :
    c = .host e := by
  cases c with
  | host e' => exact congrArg ScriptError.host (Option.some.inj h)
  | _ => cases h

/-- It is known where the errors in the moments come from, and the one that they end with. -/
structure Attributed (ms : List Moment) (o : Option HostError) : Prop where
  told : ∀ m ∈ ms, ∀ e, m.hostError? = some e → ComesFrom ms e
  ends : ∀ e, o = some e → ComesFrom ms e

namespace Attributed

variable {ms ms' : List Moment} {o o' : Option HostError} {m : Moment}

theorem nil (h : ∀ e, o = some e → Faults.own e) : Attributed [] o :=
  ⟨fun _ => nofun, fun e he => .inl (h e he)⟩

theorem done : Attributed [] none := nil nofun

theorem append (h : Attributed ms o) (h' : Attributed ms' o') : Attributed (ms ++ ms') (o.or o') where
  told m hm e he := by
    rcases List.mem_append.mp hm with hm | hm
    · exact (h.told m hm e he).mono (List.subset_append_left ..)
    · exact (h'.told m hm e he).mono (List.subset_append_right ..)
  ends e he := by
    rcases Option.or_eq_some_iff.mp he with he | ⟨-, he⟩
    · exact (h.ends e he).mono (List.subset_append_left ..)
    · exact (h'.ends e he).mono (List.subset_append_right ..)

/-- The next moment has no error, or the one that the others end with. -/
theorem next (h : Attributed ms o) (hm : m.hostError? = none ∨ m.hostError? = o) :
    Attributed (ms ++ [m]) o where
  told m' hm' e he := by
    rcases List.mem_append.mp hm' with hm' | hm'
    · exact (h.told m' hm' e he).mono (List.subset_append_left ..)
    · rw [List.mem_singleton.mp hm'] at he
      rcases hm with hm | hm
      · rw [hm] at he
        cases he
      · exact (h.ends e (hm.symm.trans he)).mono (List.subset_append_left ..)
  ends e he := (h.ends e he).mono (List.subset_append_left ..)

/-- A moment without an error comes before. -/
theorem behind (h : Attributed ms o) (hm : m.hostError? = none) : Attributed (m :: ms) o :=
  append (done.next (.inl hm)) h

/-- What is said of the error at the end does not matter for the moments. -/
theorem ending (h : Attributed ms o) (ho : ∀ e, o' = some e → ComesFrom ms e) : Attributed ms o' :=
  ⟨h.told, ho⟩

/-- An error that the host gave to its code. -/
theorem given (hm : ∀ e, m.hostError? = some e → GivenIn [m] e) : Attributed [m] m.hostError? where
  told m' hm' e he := by
    obtain rfl := List.mem_singleton.mp hm'
    exact .inr (.inr (hm e he))
  ends e he := .inr (.inr (hm e he))

end Attributed

theorem Moment.hostError?_of_not_call {m : Moment} (h : m.ofCalls = false) :
    m.hostError? = m.reported := by
  cases m with
  | call k => cases h
  | _ => rfl

/-- **Errors are made in one place only.** -/
theorem attributed_narration :
    Narration (fun ms o => Attributed ms (o.bind ScriptError.cause?)) Attributed where
  script :=
    { done := .done
      own := fun {e} he => .nil fun e' he' => by
        obtain rfl := ScriptError.eq_host he'
        exact absurd he not_false
      seq := Attributed.append }
  host :=
    { done := .done
      own := fun he => .nil fun e he' => Option.some.inj he' ▸ he
      seq := Attributed.append }
  call revisits h := (h.next (.inl rfl)).behind rfl
  noticed {ms e} h := h.next (.inr (by cases e <;> rfl))
  thrown {h e} _ := by
    have hm : (Moment.call (.raised (.host h) e)).hostError? = e.cause? := by cases e <;> rfl
    have hgiven := Attributed.given (m := .call (.raised (.host h) e)) fun e' he' => by
      obtain rfl := ScriptError.eq_host (hm.symm.trans he')
      exact .inr ⟨h, List.mem_singleton_self _⟩
    rwa [hm] at hgiven
  raised {f ms e} _ h := h.next (.inr (by cases e <;> rfl))
  hosted {ms o} h := by
    cases o with
    | none => exact h
    | some e => exact h
  supplied {e} := Attributed.given (m := .call (.supplied e)) fun e' he => by
    obtain rfl := Option.some.inj he
    exact .inl (List.mem_singleton_self _)
  reports {ms o m ms' o'} h hm hr h' := by
    have hnext := h.next (.inr ((m.hostError?_of_not_call hm).trans hr))
    rw [List.append_cons]
    exact hnext.append h'
  passes h hm hr := h.next (.inl ((Moment.hostError?_of_not_call hm).trans hr))
  inName {ms o} script h := by
    have hm : (Moment.call (.ended script o)).hostError? = o.bind ScriptError.cause? := by
      cases o with
      | none => rfl
      | some e => cases e <;> rfl
    have hnext := h.next (.inr hm)
    -- the end wraps the fault, unless it is an error of the host, of which the moments tell
    refine (hnext.behind rfl).ending fun e he => ?_
    obtain ⟨c, rfl, rfl⟩ := Option.map_eq_some_iff.mp he
    exact comesFrom_ofScript fun e' hc => ((hnext.behind rfl).ends e' (hc ▸ rfl))
  unread := by
    refine (((Attributed.done.next (.inl rfl)).next (.inl rfl))).ending fun e he => ?_
    exact Option.some.inj he ▸ .inr (.inl ⟨_, _, rfl, nofun⟩)
  acting {ms} result h := by
    have hnext := h.next (m := .call (.answered result)) (.inr (by cases result <;> rfl))
    exact (hnext.behind rfl).ending nofun

/-! ### Tasks -/

/-- What is known of the moments of an activity and the error that it ends with. -/
theorem crosses_of_tells {α : Type} {x : Hosted α}
    (hx : ∀ {S H}, Narration S H → Run.Tells H x) {w w' : World} {r : Except HostError α}
    (h : x w = Run.ofExcept r w') :
    ∃ ms, w'.history = ms.reverse ++ w.history ∧ Crosses ms (Run.errorOf r) := by
  obtain ⟨ms, hms, hread⟩ := hx decides_narration w r w' h
  obtain ⟨ms₁, hms₁, hcarried⟩ := hx carried_narration w r w' h
  obtain ⟨ms₂, hms₂, hattributed⟩ := hx attributed_narration w r w' h
  -- the three stories are of the same moments
  obtain rfl : ms = ms₁ := added_unique hms hms₁
  obtain rfl : ms = ms₂ := added_unique hms hms₂
  refine ⟨ms, hms, ?_, fun _ _ _ _ => hcarried.of_split, fun script c hc => ?_⟩
  · have hseen := (hread []).seen
    cases ho : Run.errorOf r with
    | none =>
      rw [ho] at hseen
      rw [← List.append_nil ms, hseen]
      exact fun _ => nofun
    | some e =>
      rw [ho] at hseen
      rcases hseen with ⟨he, hskips⟩ | ⟨f, rfl, hshows⟩
      · rw [← List.append_nil ms, hskips]
        exact fun e' he' => Option.some.inj he' ▸ he
      · rw [← List.append_nil ms, hshows]
  · have hfrom : ComesFrom ms (.scriptEvaluation script c) := by
      rcases hc with hc | ⟨m, hm, hc⟩
      · exact hattributed.ends _ hc
      · exact hattributed.told m hm _ hc
    rcases hfrom with hown | ⟨script', c', heq, hc'⟩ | hgiven
    · exact absurd hown not_false
    · obtain ⟨rfl, rfl⟩ := HostError.scriptEvaluation.inj heq
      exact .inl hc'
    · exact .inr hgiven

/-- The history only grows. -/
theorem growing_narration : Narration (fun _ _ => True) fun _ _ => True where
  script := ⟨trivial, fun _ => trivial, fun _ _ => trivial⟩
  host := ⟨trivial, fun _ => trivial, fun _ _ => trivial⟩
  call _ _ := trivial
  noticed _ := trivial
  thrown _ := trivial
  raised _ _ := trivial
  hosted _ := trivial
  supplied := trivial
  reports _ _ _ _ := trivial
  passes _ _ _ := trivial
  inName _ _ := trivial
  unread := trivial
  acting _ _ := trivial

/-- What a run adds to the history begins with the moment. -/
def Run.Opens {ε α : Type} (m : Moment) (x : Run ε α) : Prop :=
  ∀ w r w', x w = ofExcept r w' → ∃ ms : List Moment, w'.history = ms.reverse ++ m :: w.history

namespace Run.Opens

variable {ε α β : Type} {m : Moment} {x : Run ε α}

/-- Something is remembered, and what comes after it adds to the history. -/
theorem mark {f : Unit → Run ε β} (hf : Tells (fun _ _ => True) (f ())) :
    Opens m (Run.mark m >>= f) := by
  intro w r w' h
  obtain ⟨ms, hms, -⟩ := hf (w.mark m) r w' h
  exact ⟨ms, hms⟩

theorem bind {f : α → Run ε β} (hx : Opens m x) (hf : ∀ a, Tells (fun _ _ => True) (f a)) :
    Opens m (x >>= f) := by
  intro w r w' h
  rcases ends_of_bind h with ⟨e, -, hx'⟩ | ⟨a, w₁, hx', hf'⟩
  · exact hx w (.error e) w' hx'
  · obtain ⟨ms, hms⟩ := hx w (.ok a) w₁ hx'
    obtain ⟨ms', hms', -⟩ := hf a w₁ r w' hf'
    exact ⟨ms ++ ms', added_append hms hms'⟩

/-- What is quiet whatever faults are thought its own has none, and adds nothing to the history. -/
theorem after {f : α → Run ε β} (hx : ∀ [Faults ε], x.Within World.SameShared)
    (hf : ∀ a, Opens m (f a)) : Opens m (x >>= f) := by
  intro w r w' h
  -- where no fault is its own, being quiet excludes that it fails
  let _ : Faults ε := ⟨fun _ => False⟩
  rcases ends_of_bind h with ⟨e, -, hx'⟩ | ⟨a, w₁, hx', hf'⟩
  · exact (hx.own_of_failed hx').elim
  · obtain ⟨ms, hms⟩ := hf a w₁ r w' hf'
    exact ⟨ms, by rw [hms, (hx.of_eq (r := .ok a) hx').history]⟩

theorem attempt {γ : Type} {f : Except ε α → Run γ β} (hx : Opens m x)
    (hf : ∀ q, Tells (fun _ _ => True) (f q)) : Opens m (Run.attempt x >>= f) := by
  intro w r w' h
  obtain ⟨q, w₁, hq, h⟩ := ends_of_attempt h
  obtain ⟨ms, hms⟩ := hx w q w₁ hq
  obtain ⟨ms', hms', -⟩ := hf q w₁ r w' h
  exact ⟨ms ++ ms', added_append hms hms'⟩

end Run.Opens

/-- **The script in whose name a task runs code,** if the environment of its module exists. -/
def Task.script? (w : World) : Task → Option String
  | .module r _ source _ _ _ => (w.environment? r).map fun _ => source.name
  | .useCallback _ _ script _ => some script
  | .timer t _ _ => some t.name
  | .routine _ => none

/-- Code that runs in a name begins with that. -/
theorem Run.opens_inName {α : Type} {x : Script α} (script : String)
    (hx : Tells (fun _ _ => True) x) : Opens (.call (.begun script)) (inName script x) := by
  refine .mark fun w r w' h => ?_
  obtain ⟨q, w₁, hq, h⟩ := ends_of_attempt h
  obtain ⟨ms, hms, -⟩ := hx w q w₁ hq
  obtain ⟨-, rfl⟩ := ofExcept_inj (r := q.mapError (HostError.ofScript script))
    (w := w₁.mark (.call (.ended script (errorOf q)))) h
  exact ⟨ms ++ [.call (.ended script (errorOf q))], by rw [World.mark, hms]; simp, trivial⟩

/-- **A task begins with the script in whose name it runs code.** -/
theorem Machine.runTask_opens {m : Machine} (M : m.Tells (fun _ _ => True) fun _ _ => True)
    {t : Task} {w w' : World} {script : String} (ht : t.script? w = some script)
    {r : Except HostError Unit} (h : m.runTask t w = Run.ofExcept r w') :
    ∃ ms : List Moment, w'.history = ms.reverse ++ .call (.begun script) :: w.history := by
  have N := growing_narration
  cases t with
  | module e context source globals arguments then_ =>
    obtain ⟨x, hx, rfl⟩ := Option.map_eq_some_iff.mp ht
    -- the exports and the bindings are made before, and none of that is remembered
    have hvalue : Run.Opens (.call (.begun source.name))
        (x.moduleValue m e context source globals arguments) :=
      .after (Exports.fresh_aside.mono fun _ _ h => h.toSameShared) fun exports =>
        .after ((x.moduleBindings_aside e context source _ _ exports).mono fun _ _ h =>
          h.toSameShared) fun b =>
          .bind (Run.opens_inName _ ((N.engine M x.engine source.name source.content b).mono
            fun _ _ _ => trivial)) fun _ => N.host.read
    have htask : m.runTask (.module e context source globals arguments then_) w =
        (Run.attempt (x.moduleValue m e context source globals arguments) >>= m.handOn then_) w := by
      show m.evaluateModule e context source globals arguments then_ w = _
      unfold Machine.evaluateModule
      rw [Run.bind_of_done (Run.read_apply _ _), hx]
    rw [htask] at h
    refine Run.Opens.attempt hvalue (fun q => ?_) w r w' h
    cases q with
    | ok v =>
      cases v with
      | container c => exact N.listen M c then_
      | _ => exact M.notify then_ _
    | error e => exact fun w r w' h => N.handOn_error M then_ [] trivial h
  | useCallback f this script' c =>
    obtain rfl := Option.some.inj ht
    exact Run.Opens.bind (Run.opens_inName _ (M.call f this _)) (fun v => N.complete M c v) w r w' h
  | timer t f arguments =>
    obtain rfl := Option.some.inj ht
    exact Run.Opens.bind (Run.opens_inName _ (M.call f _ _)) (fun _ => N.host.pure) w r w' h
  | routine r => cases ht

/-- The name that the `use` of a module gives to its callbacks is that of the module. -/
theorem UseSite.script_eq {site : UseSite} {source : ModuleSource} {globals : Bindings}
    (h : site.globals = source.bindingsFrom globals) : site.script = pure source.name := by
  have hget : (site.globals.get? ReservedName.scriptFilename : Hosted _) =
      pure (some (.text source.name)) := by
    rw [h]
    unfold Bindings.get? ModuleSource.bindingsFrom Bindings.put
    rw [OrderedMap.get?_insert, if_pos rfl]
    rfl
  unfold UseSite.script Bindings.getText?
  rw [hget]
  rfl

/-- How a task ends is told by what it adds to the history, which begins with the name of its code. -/
theorem Machine.runTask_crosses (n : Nat) {t : Task} {w w' : World} {r : Except HostError Unit}
    (h : (ofFuel n).runTask t w = Run.ofExcept r w') :
    ∃ ms : List Moment, w'.history = ms.reverse ++ w.history ∧ Crosses ms (Run.errorOf r) ∧
      ∀ script, t.script? w = some script → ms.head? = some (.call (.begun script)) := by
  obtain ⟨ms, hms, hcrosses⟩ := crosses_of_tells (fun N => N.runTask (ofFuel_tells N n) t) h
  refine ⟨ms, hms, hcrosses, fun script ht => ?_⟩
  obtain ⟨later, hlater⟩ := runTask_opens (ofFuel_tells growing_narration n) ht h
  obtain rfl : ms = .call (.begun script) :: later :=
    added_unique hms (by rw [hlater, List.reverse_cons, List.append_assoc]; rfl)
  rfl

/-- After a gathering's callback was called, the next moment is that code runs in the gathering's name. -/
theorem Machine.callGathered_opens (n : Nat) (g : Ref .gathering) (x : Gathering) :
    Run.Opens (.call (.begun x.script)) (do
      let q ← Run.attempt ((ofFuel n).callFor x.script x.callback x.this x.slots)
      Run.mark (.gathering g (.returned q))
      (ofFuel n).complete x.container (← Run.ofExcept q) : Hosted Unit) := by
  have M := ofFuel_tells growing_narration n
  refine .attempt (Run.opens_inName _ (M.call _ _ _)) fun q w r w' h => ?_
  cases q with
  | error e =>
    obtain ⟨-, rfl⟩ := Run.ofExcept_inj (r := .error e)
      (w := w.mark (.gathering g (.returned (.error e)))) h
    exact ⟨[.gathering g (.returned (.error e))], rfl, trivial⟩
  | ok v =>
    obtain ⟨later, hlater, -⟩ := growing_narration.complete M x.container v
      (w.mark (.gathering g (.returned (.ok v)))) r w' h
    exact ⟨.gathering g (.returned (.ok v)) :: later, by rw [hlater]; simp [World.mark], trivial⟩

/-- How the callback of a gathering ends is told by what it adds to the history. -/
theorem Machine.callGathered_crosses (n : Nat) {g : Ref .gathering} {x : Gathering} {w w' : World}
    {r : Except HostError Unit} (h : (ofFuel n).callGathered g x w = Run.ofExcept r w') :
    ∃ ms later : List Moment, w'.history = ms.reverse ++ w.history ∧ Crosses ms (Run.errorOf r) ∧
      ms = .gathering g (.called x.callback x.this x.slots) :: .call (.begun x.script) :: later := by
  obtain ⟨ms, hms, hcrosses⟩ := crosses_of_tells (fun N => N.callGathered (ofFuel_tells N n) g x) h
  -- the call itself is remembered before the callback begins
  obtain ⟨later, hlater⟩ := callGathered_opens n g x _ r w' h
  exact ⟨ms, later, hms, hcrosses, added_unique hms (by rw [hlater]; simp [World.mark])⟩

/-- **Faults cross scripts unchanged.** A task that ends has added moments to the history, and how it ends
is told by them (`Crosses`): it fails with the error that the first fault is, be it raised by a function of
the host however deep in calls, or in a listener that it came to by completing containers. A fault of its
own script is wrapped once, and one that is an error of the host is not. The name is that of the code that
ran: a task begins with the name of its module, of the script whose `use` it comes from, or of its timer; a
callback with results runs in the name that its gathering remembers; and both get it from `use`, which has
the name of the module that it was made for. -/
theorem Machine.faults_cross (n : Nat) :
    (∀ (t : Task) (w w' : World) (r : Except HostError Unit),
      (ofFuel n).runTask t w = Run.ofExcept r w' →
        ∃ ms : List Moment, w'.history = ms.reverse ++ w.history ∧ Crosses ms (Run.errorOf r) ∧
          ∀ script, t.script? w = some script → ms.head? = some (.call (.begun script))) ∧
    (∀ (g : Ref .gathering) (x : Gathering) (w w' : World) (r : Except HostError Unit),
      (ofFuel n).callGathered g x w = Run.ofExcept r w' →
        ∃ ms later : List Moment, w'.history = ms.reverse ++ w.history ∧ Crosses ms (Run.errorOf r) ∧
          ms = .gathering g (.called x.callback x.this x.slots) :: .call (.begun x.script) :: later) ∧
    (∀ (e : Environment) (k : Ref .environment) (context : Ref .context) (source : ModuleSource)
      (globals arguments b : Bindings) (x : Exports) (w w' : World),
      (e.moduleBindings k context source globals arguments x : Hosted Bindings) w = (.done b, w') →
        ∃ f site, b.entries.get? "use" = some (.value (.function f)) ∧
          w'.functions.get? f = some (.use site) ∧ site.script = pure source.name) := by
  refine ⟨fun t w w' r h => runTask_crosses n h, fun g x w w' r h => callGathered_crosses n h,
    fun e k context source globals arguments b x w w' h => ?_⟩
  obtain ⟨f, o, properties, huse, hf, -⟩ := Environment.moduleBindings_use h
  exact ⟨f, _, huse, hf, UseSite.script_eq rfl⟩

/-- The world of a page whose function `boom` is the host's and fails. An arrow of the page maps a list
with a callback that calls it. -/
def World.ofThrower : World where
  heaps := ⟨#[{}]⟩
  scopes := ⟨#[{
    locals := .ofList [("boom", ⟨.function ⟨1⟩, false⟩)], parent := none, this := none, globals := none,
    heap := ⟨0⟩ }]⟩
  functions := ⟨#[
    .closure ⟨"", [], .value (.call (.member (.list [.literal .null]) "map")
      [.arrow ["x"] (.value (.call (.name "boom") []))]), true, ⟨0⟩⟩,
    .host ⟨"boom", some (.host (.unresolved "page")), none⟩]⟩
  containers := ⟨#[.pending []]⟩

/-- The page as the callback of a timer and of a `use` of its own, and the bindings of a module. -/
theorem Machine.faults_cross_for_thrower :
    (∃ w' ms, (ofFuel 5).runTask (.timer .immediate ⟨0⟩ #[]) .ofThrower =
        (.failed (.unresolved "page"), w') ∧
      w'.history = ms.reverse ++ World.ofThrower.history ∧ Crosses ms (some (.unresolved "page")) ∧
      ms.head? = some (.call (.begun "setImmediate")) ∧
      firstFault [] 0 ms = some (.inScript "setImmediate" (.host (.unresolved "page")))) ∧
    (∃ w' ms later, (ofFuel 5).callGathered ⟨0⟩ ⟨#[], 0, ⟨0⟩, .null, "/page.js", ⟨0⟩⟩ .ofThrower =
        (.failed (.unresolved "page"), w') ∧
      w'.history = ms.reverse ++ World.ofThrower.history ∧ Crosses ms (some (.unresolved "page")) ∧
      ms = .gathering ⟨0⟩ (.called ⟨0⟩ .null #[]) :: .call (.begun "/page.js") :: later) ∧
    ∃ (b : Bindings) (w' : World) (f : Ref .function) (site : UseSite),
      (pageEnvironment.moduleBindings ⟨0⟩ ⟨0⟩ ⟨"/page.js", "null"⟩ {} {} ⟨⟨0⟩, ⟨1⟩, ⟨0⟩⟩ :
        Hosted Bindings) .ofThrower = (.done b, w') ∧
      b.entries.get? "use" = some (.value (.function f)) ∧
        w'.functions.get? f = some (.use site) ∧ site.script = pure "/page.js" := by
  have law := faults_cross 5
  refine ⟨?_, ?_, ?_⟩
  · have hfails : ((ofFuel 5).runTask (.timer .immediate ⟨0⟩ #[]) .ofThrower).1.error? =
        some (.unresolved "page") := by decide +kernel
    have hseen : firstFault [] 0
        ((ofFuel 5).runTask (.timer .immediate ⟨0⟩ #[]) .ofThrower).2.history.reverse =
          some (.inScript "setImmediate" (.host (.unresolved "page"))) := by decide +kernel
    rcases hrun : (ofFuel 5).runTask (.timer .immediate ⟨0⟩ #[]) .ofThrower with ⟨o, w'⟩
    rw [hrun] at hfails hseen
    obtain rfl := Outcome.eq_failed hfails
    obtain ⟨ms, hms, hcrosses, hname⟩ := law.1 _ _ w' (.error (.unresolved "page")) hrun
    rw [hms, show World.ofThrower.history = [] from rfl, List.append_nil, List.reverse_reverse] at hseen
    exact ⟨w', ms, rfl, hms, hcrosses, hname _ rfl, hseen⟩
  · have hfails : ((ofFuel 5).callGathered ⟨0⟩ ⟨#[], 0, ⟨0⟩, .null, "/page.js", ⟨0⟩⟩
        .ofThrower).1.error? = some (.unresolved "page") := by decide +kernel
    rcases hrun : (ofFuel 5).callGathered ⟨0⟩ ⟨#[], 0, ⟨0⟩, .null, "/page.js", ⟨0⟩⟩ .ofThrower with
      ⟨o, w'⟩
    rw [hrun] at hfails
    obtain rfl := Outcome.eq_failed hfails
    obtain ⟨ms, later, hms, hcrosses, hopens⟩ := law.2.1 _ _ _ w' (.error (.unresolved "page")) hrun
    exact ⟨w', ms, later, rfl, hms, hcrosses, hopens⟩
  · have hbound : ((pageEnvironment.moduleBindings ⟨0⟩ ⟨0⟩ ⟨"/page.js", "null"⟩ {} {}
        ⟨⟨0⟩, ⟨1⟩, ⟨0⟩⟩ : Hosted Bindings) .ofThrower).1.value?.isSome = true := by decide +kernel
    rcases hrun : (pageEnvironment.moduleBindings ⟨0⟩ ⟨0⟩ ⟨"/page.js", "null"⟩ {} {}
        ⟨⟨0⟩, ⟨1⟩, ⟨0⟩⟩ : Hosted Bindings) .ofThrower with ⟨o, w'⟩
    rw [hrun] at hbound
    obtain ⟨b, hb⟩ := Option.isSome_iff_exists.mp hbound
    obtain rfl := Outcome.eq_done hb
    obtain ⟨f, site, huse, hf, hscript⟩ := law.2.2 _ _ _ _ _ _ _ _ _ _ hrun
    exact ⟨b, w', f, site, rfl, huse, hf, hscript⟩

end ScriptModules
