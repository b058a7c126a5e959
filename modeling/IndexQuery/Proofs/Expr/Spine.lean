/-
# Taking a chain apart and putting it together again

Both compilers see of an expression only its stages.  They come from one walk: from a call to its first
argument, and on as long as that is a call.  The nodes on this way are the spine of the expression
(`Expr.spine`), and the stages are the calls of the spine, each without its first argument
(`Expr.stages_eq_filterMap_spine`).

The main result, `stages_invert_chainAll`, is that the walk and the chaining of stages undo each other.  A
chain on anything but a call has the stages that were chained, last first.  And the stages of an
expression, chained from the last on, give the expression back from where its spine ends, unless it ends
in a call without arguments: from there on nothing is left to chain on.
-/
import IndexQuery.Proofs.Chain

namespace IndexQuery

namespace Expr

/-! ## 1. The spine -/

/-- **The nodes that are met on the way along first arguments**, the expression itself first. -/
def spine : Expr → List Expr
  | call name (receiver :: args) => call name (receiver :: args) :: receiver.spine
  | e => [e]
termination_by structural e => e

/-- A call without its first argument. -/
def stage? : Expr → Option Stage
  | call name args => some ⟨name, args.tail⟩
  | _ => none

/-- Where the spine comes to something other than a call. -/
def root? (e : Expr) : Option Expr :=
  e.spine.find? (·.shape ≠ .call)

theorem isSome_stage? (e : Expr) : e.stage?.isSome = decide (e.shape = .call) := by
  cases e <;> rfl

/-- **The stages are the calls of the spine.** -/
theorem stages_eq_filterMap_spine : (e : Expr) → e.stages = e.spine.filterMap stage?
  | call name (receiver :: args) => by
    rw [stages, stages_eq_filterMap_spine receiver]
    rfl
  | call _ [] | binary .. | unary .. | member _ | constant _ | lambda _ | record _ => rfl

theorem length_stages (e : Expr) : e.stages.length = e.spine.countP (·.shape = .call) := by
  rw [stages_eq_filterMap_spine, List.length_filterMap_eq_countP]
  exact List.countP_congr fun node _ => by rw [isSome_stage?]

/-! ## 2. Where the spine ends -/

/-- Something other than a call is reached, unless there is a call without arguments on the way. -/
theorem exists_root?_iff : (e : Expr) →
    (∃ root, e.root? = some root) ↔ ∀ name, call name [] ∉ e.spine
  | call name (receiver :: args) => by
    have hroot : (call name (receiver :: args)).root? = receiver.root? := rfl
    have hspine : (call name (receiver :: args)).spine
        = call name (receiver :: args) :: receiver.spine := rfl
    rw [hroot, hspine, exists_root?_iff receiver]
    simp
  | call name [] => by simp [root?, spine, shape]
  | binary .. | unary .. | member _ | constant _ | lambda _ | record _ => by
    simp [root?, spine, shape]

theorem chainAll_append (root : Expr) (ss : List Stage) (s : Stage) :
    root.chainAll (ss ++ [s]) = (root.chainAll ss).chain s.name s.args := by
  rw [chainAll, List.foldl_append]
  rfl

/-- **The stages, chained from the last on, give the expression back.** -/
theorem chainAll_reverse_stages : {e root : Expr} → e.root? = some root →
    root.chainAll e.stages.reverse = e
  | call name (receiver :: args), root, h => by
    have hreceiver : receiver.root? = some root := h
    rw [stages, List.reverse_cons, chainAll_append, chainAll_reverse_stages hreceiver]
    rfl
  | call _ [], _, h => by cases h
  | binary .., _, h | unary .., _, h | member _, _, h | constant _, _, h | lambda _, _, h
  | record _, _, h => by
    cases h
    rfl

end Expr

/-! ## 3. Chaining and taking apart -/

/-- **Taking apart and chaining undo each other.**  A chain on anything but a call has the stages that
were chained, last first.  Every expression has as many stages as there are calls on its spine; and if all
of them have arguments, the spine comes to something other than a call, and the stages chained on that are
the expression. -/
theorem stages_invert_chainAll :
    (∀ (root : Expr) (ss : List Stage), root.shape ≠ .call →
      (root.chainAll ss).stages = ss.reverse) ∧
    ∀ e : Expr, e.stages.length = e.spine.countP (·.shape = .call) ∧
      ((∀ name, Expr.call name [] ∉ e.spine) →
        ∃ root, e.spine.find? (·.shape ≠ .call) = some root ∧
          root.chainAll e.stages.reverse = e) := by
  refine ⟨fun root ss hroot => Expr.stages_chainAll_of_root hroot ss, fun e => ⟨e.length_stages, ?_⟩⟩
  intro hargs
  obtain ⟨root, hroot⟩ := e.exists_root?_iff.mpr hargs
  exact ⟨root, hroot, Expr.chainAll_reverse_stages hroot⟩

/-- A root that is no call, though there is one below it. -/
def convertedPeople : Expr := .convert (.call "People" [])

/-- Two stages, the first with a call without arguments and a call with some among its own. -/
def nearestFew : List Stage :=
  [⟨"Where", [.call "Near" [], .call "Index" [.member "home"]]⟩, ⟨"Take", []⟩]

theorem stages_invert_chainAll_nearestFew :
    convertedPeople.shape ≠ .call ∧ (convertedPeople.chainAll nearestFew).stages = nearestFew.reverse ∧
    (∀ name, Expr.call name [] ∉ (convertedPeople.chainAll nearestFew).spine) ∧
    ∃ root, (convertedPeople.chainAll nearestFew).spine.find? (·.shape ≠ .call) = some root ∧
      root.chainAll nearestFew.reverse.reverse = convertedPeople.chainAll nearestFew := by
  have hroot : convertedPeople.shape ≠ .call := by decide
  have hstages := stages_invert_chainAll.1 convertedPeople nearestFew hroot
  have hargs : ∀ name, Expr.call name [] ∉ (convertedPeople.chainAll nearestFew).spine := by
    simp [nearestFew, Expr.chainAll, Expr.chain, Expr.spine, convertedPeople, Expr.convert]
  refine ⟨hroot, hstages, hargs, ?_⟩
  rw [← hstages]
  exact (stages_invert_chainAll.2 _).2 hargs

end IndexQuery
