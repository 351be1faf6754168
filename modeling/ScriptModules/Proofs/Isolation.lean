import ScriptModules.Proofs.CallDepth
import ScriptModules.Proofs.LikeRuns

/-!
# Programs do not leak into each other

A program is evaluated and comes to an end, and then another one is evaluated against the same
bindings, which are bindings to constants. To the second program the world that the first one has left
behind is like the one before it: calls are nested as deep as they were (`Level`), lazy cells were at
most read, and nothing that the first one made is mentioned by the bindings. So the second program ends
as it would have ended without the first one, up to the identity of what it makes
(`Program.evaluate_isolated`).
-/

namespace ScriptModules

open Run

/-! ### The bindings -/

/-- What the bindings say in a world, name by name, no matter which of them were read before. -/
def Bindings.Shows (b : Bindings) (w : World) (values : List (String × Value)) : Prop :=
  ∀ ε, ((realizeAll b.entries.entries : Run ε _) w).1 = .done values

/-- Entries that yield something are read one after the other, also later. -/
theorem Bindings.realizeAll_eq {w : World} {entries : List (String × Binding)}
    (h : ∀ e ∈ entries, ∃ v, e.2.Yields w v) : ∃ values : List (String × Value),
      values.map Prod.fst = entries.map Prod.fst ∧ ∀ ε w', w.CellsSettle w' →
        ((realizeAll entries : Run ε _) w').1 = .done values := by
  induction entries with
  | nil => exact ⟨[], rfl, fun _ _ _ => rfl⟩
  | cons e rest ih =>
    obtain ⟨v, hv⟩ := h e List.mem_cons_self
    obtain ⟨values, hnames, hvalues⟩ := ih fun e he => h e (List.mem_cons_of_mem _ he)
    refine ⟨(e.1, v) :: values, congrArg (e.1 :: ·) hnames, fun ε w' hw => ?_⟩
    -- reading the first entry leaves the cells of the others as they are, or read
    obtain ⟨w₁, hfirst, hstore⟩ := Binding.realize_eq ε (hv.settle hw)
    have hrest := hvalues ε w₁ (hw.trans hstore.cells)
    show ((e.2.realize >>= _) w').1 = _
    rw [Run.bind_of_done hfirst, Run.bind_apply]
    rcases hrun : (realizeAll rest : Run ε _) w₁ with ⟨_ | _ | _, w₂⟩
    · rw [hrun] at hrest
      obtain rfl := Outcome.done.inj hrest
      rfl
    · rw [hrun] at hrest
      cases hrest
    · rw [hrun] at hrest
      cases hrest

/-- **Bindings to constants say the same as long as lazy cells are at most read.** -/
theorem Bindings.Constant.shows {b : Bindings} {w : World} (hb : b.Constant w) :
    ∃ values : List (String × Value), values.map Prod.fst = b.names ∧
      ∀ w', w.CellsSettle w' → b.Shows w' values := by
  obtain ⟨values, hnames, hvalues⟩ := Bindings.realizeAll_eq fun e he =>
    (hb e he).imp fun _ => And.right
  exact ⟨values, hnames, fun w' hw ε => hvalues ε w' hw⟩

/-! ### One program after another -/

theorem Held.of_keeps {w : World} {ε α : Type} {x : Run ε α}
    (hx : Run.Keeps (Level w w.depth) (Held w) x) : Held w (x w).2 := by
  have hleads := hx w (.refl w)
  generalize x w = r at hleads ⊢
  rcases r with ⟨_ | _ | _, w'⟩
  · exact hleads.toHeld
  · exact hleads.toHeld
  · exact hleads

theorem Program.evaluate_keeps (q : Program) (n : Nat) (b : Bindings) (w : World) :
    Run.Keeps (Level w w.depth) (Held w) (q.evaluate (Machine.ofFuel n).call b) :=
  q.evaluate_level (fun d => (Machine.ofFuel_keeps (level_lawful w) n).call d []) b

/-- The world before a program was evaluated, and the one that it leaves behind. -/
def Starts.around (q : Program) (n : Nat) (b : Bindings) (w : World) : Starts :=
  ⟨w, (q.evaluate (Machine.ofFuel n).call b w).2, b⟩

/-- **A program that ends leaves a world behind that is like the one before.** -/
theorem World.Alike.around {q : Program} {n : Nat} {b : Bindings} {w : World}
    (hheap : ∀ h, b.heap = some h → h.row < w.heaps.size)
    (hends : (q.evaluate (Machine.ofFuel n).call b w).1 ≠ .exhausted) :
    World.Alike (.around q n b w) w (q.evaluate (Machine.ofFuel n).call b w).2 := by
  have hkeeps := q.evaluate_keeps n b w
  have hheld := Held.of_keeps hkeeps
  have hbalances := (World.balances_of_keeps hkeeps).1 hends
  exact .start hheld.cells fun h hh =>
    ⟨hheap h hh, Nat.lt_of_lt_of_le (hheap h hh) hheld.heaps, (hbalances h).symm⟩

/-- A program ends alike with and without another one before it. -/
theorem Program.evaluate_after (first second : Program) {b : Bindings} {w : World}
    (hb : b.Constant w) (hheap : ∀ h, b.heap = some h → h.row < w.heaps.size) (m n : Nat)
    (hends : (first.evaluate (Machine.ofFuel m).call b w).1 ≠ .exhausted) :
    EndAlike (World.Alike (.around first m b w)) (Value.Alike (.around first m b w))
      (second.evaluate (Machine.ofFuel n).call b w)
      (second.evaluate (Machine.ofFuel n).call b (first.evaluate (Machine.ofFuel m).call b w).2) :=
  second.evaluate_alike (p := .around first m b w) hb (Machine.calls_alike hb n) _ _
    (.around hheap hends)

theorem Run.EndAlike.exists_picture_eq {p : Starts} {ε : Type} {r r' : Outcome ε Value × World}
    (h : EndAlike (World.Alike p) (Value.Alike p) r r') {v : Value} {w : World}
    (hr : r = (.done v, w)) : ∃ v' w', r' = (.done v', w') ∧ v'.picture w' = v.picture w := by
  subst hr
  cases h with
  | done hv hw => exact ⟨_, _, rfl, (hw.picture hv).symm⟩

/-- **Programs do not leak into each other.** After the first program has ended, be it with a value or
with an error, the second one ends as it would have ended without it: with the same value or error, in
the same world, up to the identity of what it makes. So one sees the same of its value. And the bindings
still say the same about the same names in the same order. -/
theorem Program.evaluate_isolated (first second : Program) {b : Bindings} {w : World}
    (hb : b.Constant w) (hheap : ∀ h, b.heap = some h → h.row < w.heaps.size) (m n : Nat)
    (hends : (first.evaluate (Machine.ofFuel m).call b w).1 ≠ .exhausted) :
    EndAlike (World.Alike (.around first m b w)) (Value.Alike (.around first m b w))
      (second.evaluate (Machine.ofFuel n).call b w)
      (second.evaluate (Machine.ofFuel n).call b (first.evaluate (Machine.ofFuel m).call b w).2) ∧
    (∀ v w₁, second.evaluate (Machine.ofFuel n).call b w = (.done v, w₁) →
      ∃ v' w₁', second.evaluate (Machine.ofFuel n).call b
        (first.evaluate (Machine.ofFuel m).call b w).2 = (.done v', w₁') ∧
        v'.picture w₁' = v.picture w₁) ∧
    ∃ values : List (String × Value), values.map Prod.fst = b.names ∧ b.Shows w values ∧
      b.Shows (first.evaluate (Machine.ofFuel m).call b w).2 values ∧
      b.Shows (second.evaluate (Machine.ofFuel n).call b
        (first.evaluate (Machine.ofFuel m).call b w).2).2 values := by
  have hafter := first.evaluate_after second hb hheap m n hends
  have hfirst := (Held.of_keeps (first.evaluate_keeps m b w)).cells
  have hsecond := (Held.of_keeps (second.evaluate_keeps n b
    (first.evaluate (Machine.ofFuel m).call b w).2)).cells
  obtain ⟨values, hnames, hshows⟩ := hb.shows
  exact ⟨hafter, fun _ _ => hafter.exists_picture_eq, values, hnames, hshows w (.of_same rfl),
    hshows _ hfirst, hshows _ (hfirst.trans hsecond)⟩

/-- A script that assigns to a name that nobody declared, and to one that is bound. -/
def Program.marking : Program :=
  ⟨[.expression (.assign .set (.name "found") (.name "place")),
    .expression (.assign .set (.name "place") (.literal .null))]⟩

/-- A script that asks for both. -/
def Program.asking : Program :=
  ⟨[.expression (.list [.unary .typeOf (.name "found"), .name "place"])]⟩

/-- A world with a heap and a lazy cell. -/
def World.placed : World :=
  { World.empty.addHeap with cells := ⟨#[⟨.host "place" (.text "original"), none⟩]⟩ }

/-- On the heap, with one name bound to the cell. -/
def Bindings.placed : Bindings := (Bindings.putLazy {} "place" ⟨0⟩).onHeap ⟨0⟩

theorem Bindings.placed_constant : Bindings.placed.Constant World.placed := by
  intro e he
  obtain rfl := List.mem_singleton.mp he
  exact ⟨.text "original", rfl, "place", none, rfl, .inl rfl⟩

/-- What the first of these scripts assigns does not reach the second one. -/
theorem Program.asking_isolated :
    (marking.evaluate (Machine.ofFuel 0).call .placed .placed).1 = .done .undefined ∧
    EndAlike (World.Alike (.around marking 0 .placed .placed))
      (Value.Alike (.around marking 0 .placed .placed))
      (asking.evaluate (Machine.ofFuel 0).call .placed .placed)
      (asking.evaluate (Machine.ofFuel 0).call .placed
        (marking.evaluate (Machine.ofFuel 0).call .placed .placed).2) ∧
    (asking.evaluate (Machine.ofFuel 0).call .placed
      (marking.evaluate (Machine.ofFuel 0).call .placed .placed).2).2.items ⟨0⟩ =
        #[.text "undefined", .text "original"] := by
  have hends : (marking.evaluate (Machine.ofFuel 0).call .placed .placed).1 = .done .undefined := rfl
  refine ⟨hends, ?_, rfl⟩
  refine (evaluate_isolated marking asking Bindings.placed_constant (fun h hh => ?_) 0 0 ?_).1
  · obtain rfl := Option.some.inj hh
    exact Nat.zero_lt_one
  · rw [hends]
    exact nofun

end ScriptModules
