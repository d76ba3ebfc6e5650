import LeastSquares.Proofs.Dense.Admission
import LeastSquares.Proofs.Exact.SingleUnknown

/-!
# What a solver object remembers

Requests come to a solver object one after another, and any of them may fail. A matrix that is
factored with success takes the place of all that the object keeps, whatever it kept before; a matrix
that is refused leaves the object as it was, and so does a solve. So the object is at every time the
one on which the last success was the only request, and it says that nothing was factored exactly as
long as there was no success (`solve_after_requests`). The kernels are arbitrary functions of their
matrix.
-/

namespace LeastSquares.Dense

/-- A refusal because nothing was factored. -/
def IsNotFactored {β : Type} (outcome : Outcome Report β) : Prop :=
  ∃ notes, outcome = Outcome.report ⟨.notFactored, notes⟩

namespace Solver

variable {α : Type} {kind : Factorization}

/-- What a request and its reply make of the matrix that was factored last. -/
def remember (last : Option (DenseMatrix α)) : Request α × Reply α → Option (DenseMatrix α)
  | (.factor a, .factored (.ok ())) => some a
  | _ => last

/-- The matrix of the last request in a history that was factored with success. -/
def lastFactored (history : List (Request α × Reply α)) : Option (DenseMatrix α) :=
  history.foldl remember none

section Held

/-- A solver with the factors of a matrix holds something. -/
theorem held_ofFactored_ne_none (a : Factored α kind) : (ofFactored a).held ≠ none := by
  obtain ⟨nrows, ncols, factors⟩ := a
  cases factors <;> exact Option.some_ne_none _

variable [Scalar α]

theorem held_fresh : (fresh : Solver α kind).held = none := by
  cases kind <;> rfl

/-- A solve says that nothing was factored exactly when nothing is held. -/
theorem isNotFactored_solve (solver : Solver α kind) (b : DenseMatrix α) :
    IsNotFactored (solver.solve b) ↔ solver.held = none := by
  unfold solve
  cases solver.held with
  | none => exact ⟨fun _ => rfl, fun _ => ⟨_, rfl⟩⟩
  | some factored =>
      constructor
      · -- A solve with factors refuses the numbers, which is another cause.
        rintro ⟨notes, hreport⟩
        have hends := factoredSolve_ends trivial factored b
        rw [show factored.solve b = _ from hreport] at hends
        cases hends with
        | refused report hrefused =>
            rcases hrefused with hnumeric | ⟨-, hnot⟩
            · cases hnumeric
            · exact absurd trivial hnot
      · exact fun hnone => nomatch hnone

end Held

variable [Scalar α] [Kernels α]

/-- A fresh solver on which at most one matrix was factored. -/
def ofLast : Option (DenseMatrix α) → Solver α kind
  | none => fresh
  | some a => (fresh.factor a).1

section Step

variable {a : DenseMatrix α}

theorem factor_of_ok (solver : Solver α kind) {factored : Factored α kind}
    (h : Dense.factor kind a = .ok factored) : solver.factor a = (ofFactored factored, .ok ()) := by
  simp [factor, h]

theorem factor_of_error (solver : Solver α kind) {report : Report}
    (h : Dense.factor kind a = .error report) : solver.factor a = (solver, .error report) := by
  simp [factor, h]

/-- A request to a solver on which the last success was the only one leads to another such solver. -/
theorem handle_ofLast (last : Option (DenseMatrix α)) (request : Request α) :
    ((ofLast last : Solver α kind).handle request).1 =
      ofLast (remember last (request, ((ofLast last : Solver α kind).handle request).2)) := by
  cases request with
  | solve b => rfl
  | factor a =>
      cases hfactor : Dense.factor kind a with
      | ok factored => simp [handle, factor_of_ok _ hfactor, remember, ofLast]
      | error report => simp [handle, factor_of_error _ hfactor, remember]

/-- After a request nothing is held if nothing was before, and if the request was no success. -/
theorem held_handle (solver : Solver α kind) (request : Request α) :
    (solver.handle request).1.held = none ↔
      solver.held = none ∧ (solver.handle request).2 ≠ .factored (.ok ()) := by
  cases request with
  | solve b => simp [handle]
  | factor a =>
      cases hfactor : Dense.factor kind a with
      | ok factored => simp [handle, factor_of_ok _ hfactor, held_ofFactored_ne_none]
      | error report => simp [handle, factor_of_error _ hfactor]

end Step

section Run

/-- The induction is on the requests; the matrix that was factored last is carried along. -/
theorem handleAll_ofLast (requests : List (Request α)) :
    ∀ last : Option (DenseMatrix α),
      (handleAll (ofLast last : Solver α kind) requests).1 =
        ofLast ((requests.zip (handleAll (ofLast last : Solver α kind) requests).2).foldl remember
          last) := by
  induction requests with
  | nil => exact fun last => rfl
  | cons request rest ih =>
      intro last
      simp only [handleAll, List.zip_cons_cons, List.foldl_cons]
      rw [handle_ofLast]
      exact ih _

/-- After any requests a solver is the one on which the last success was the only request. -/
theorem handleAll_eq_ofLast (requests : List (Request α)) :
    (handleAll (fresh : Solver α kind) requests).1 =
      ofLast (lastFactored (requests.zip (handleAll (fresh : Solver α kind) requests).2)) :=
  handleAll_ofLast requests none

theorem held_handleAll (solver : Solver α kind) (requests : List (Request α)) :
    (solver.handleAll requests).1.held = none ↔
      solver.held = none ∧ ∀ reply ∈ (solver.handleAll requests).2, reply ≠ .factored (.ok ()) := by
  induction requests generalizing solver with
  | nil => simp [handleAll]
  | cons request rest ih =>
      simp only [handleAll, List.forall_mem_cons]
      rw [ih, held_handle, and_assoc]

/-- Requests are answered in turn. -/
theorem handleAll_append (solver : Solver α kind) (requests later : List (Request α)) :
    (solver.handleAll (requests ++ later)).2 =
      (solver.handleAll requests).2 ++ ((solver.handleAll requests).1.handleAll later).2 := by
  induction requests generalizing solver with
  | nil => rfl
  | cons request rest ih =>
      simp only [List.cons_append, handleAll]
      rw [ih]

/-- Every request has its reply. -/
theorem handleAll_length (solver : Solver α kind) (requests : List (Request α)) :
    (solver.handleAll requests).2.length = requests.length := by
  induction requests generalizing solver with
  | nil => rfl
  | cons request rest ih => simp [handleAll, ih]

/-- The reply to a request is the one of the solver that the requests before it have led to. -/
theorem handleAll_getElem? (solver : Solver α kind) (before after : List (Request α))
    (request : Request α) :
    (solver.handleAll (before ++ request :: after)).2[before.length]? =
      some ((solver.handleAll before).1.handle request).2 := by
  rw [handleAll_append, ← handleAll_length solver before, List.getElem?_append_right (Nat.le_refl _),
    Nat.sub_self]
  rfl

end Run

/-- **A solver object remembers its last success.** In every sequence of requests to one object, a
solve is answered as by a fresh solver on which only the last matrix was factored that the object
factored with success; it is refused for want of factors exactly if there was no success yet. A refused
matrix and a solve leave the object as it was. -/
theorem solve_after_requests (kind : Factorization) (before after : List (Request α))
    (b : DenseMatrix α) :
    let past := handleAll (fresh : Solver α kind) before
    (handleAll (fresh : Solver α kind) (before ++ .solve b :: after)).2[before.length]? =
        some (.solved ((ofLast (lastFactored (before.zip past.2)) : Solver α kind).solve b)) ∧
      (IsNotFactored (past.1.solve b) ↔ ∀ reply ∈ past.2, reply ≠ .factored (.ok ())) ∧
      (∀ a report, (past.1.handle (.factor a)).2 = .factored (.error report) →
        (past.1.handle (.factor a)).1 = past.1) ∧
      (past.1.handle (.solve b)).1 = past.1 := by
  intro past
  refine ⟨?_, ?_, fun a report hrefused => ?_, rfl⟩
  · rw [handleAll_getElem?, ← handleAll_eq_ofLast]
    rfl
  · rw [isNotFactored_solve, held_handleAll, held_fresh]
    exact and_iff_right rfl
  · cases hfactor : Dense.factor kind a with
    | ok factored =>
        rw [handle, factor_of_ok _ hfactor] at hrefused
        cases hrefused
    | error report => rw [handle, factor_of_error _ hfactor]

open Exact in
/-- A solver that has factored two and was refused zero still divides by two. -/
theorem solve_after_requests_single :
    let requests : List (Request Exact) :=
      [.factor (single (real 2)), .factor (single (real 0)), .solve (single (real 6))]
    (handleAll (fresh : Solver Exact .lu) requests).2[2]? =
      some (.solved (.ok (single (real 3)))) := by
  intro requests
  have hreply := (solve_after_requests .lu
    [.factor (single (real 2)), .factor (single (real 0))] [] (single (real 6))).1
  refine hreply.trans ?_
  have htwo : Dense.factor .lu (single (real 2)) = .ok _ :=
    (factor_single 2).trans (if_neg two_ne_zero)
  have hzero : Dense.factor .lu (single (real 0)) = .error _ :=
    (factor_single 0).trans (if_pos rfl)
  have hsolved := factoredSolve_single two_ne_zero 6
  simp only [handleAll, handle, factor_of_ok _ htwo, factor_of_error _ hzero, List.zip_cons_cons,
    List.zip_nil_right, lastFactored, List.foldl_cons, List.foldl_nil, remember, ofLast, solve,
    ofFactored, held, hsolved]
  norm_num

end Solver

end LeastSquares.Dense
