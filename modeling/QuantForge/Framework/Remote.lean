import Mathlib.Tactic.Common

namespace QuantForge.Remote

/-- Work over a connection as its client runs it: it opens a transaction, runs a
statement or commits, and goes on with what it hears; it ends with a result, and
may drop an open transaction as it does. -/
inductive Work (Q : Type) (A : Q → Type) (X T : Type)
  | ret (result : Except X T)
  | drops (result : Except X T)
  | opens (next : Except X Unit → Work Q A X T)
  | runs (q : Q) (next : Except X (A q) → Work Q A X T)
  | commits (next : Except X Unit → Work Q A X T)

inductive Request (Q : Type)
  | opens
  | runs (q : Q)
  | commits

/-- A statement that ran, and what it answered. -/
structure Done (Q : Type) (A : Q → Type) where
  q : Q
  answer : A q

inductive Txn (Q : Type) (A : Q → Type)
  | none
  | running (done : List (Done Q A))
  | aborted

/-- What the server does with a request: it obeys, or it reports an error. A
report that leaves the outcome open may hide that the request took effect. -/
inductive Verdict (Q : Type) (A : Q → Type) (X : Type)
  | obeys (answers : (q : Q) → A q)
  | reports (error : X) (took : Option ((q : Q) → A q))

/-- The server's side of a connection: its transaction, the request it was sent
and has not executed yet, whether a rollback follows it, whether more can reach
it, and the transactions it committed. -/
structure Session (Q : Type) (A : Q → Type) where
  txn : Txn Q A
  asked : Option (Request Q)
  ending : Bool
  alive : Bool
  ledger : List (List (Done Q A))

variable {Q : Type} {A : Q → Type} {X T : Type}

namespace Work

def result : Work Q A X T → Option (Except X T)
  | ret r | drops r => some r
  | _ => none

def request : Work Q A X T → Option (Request Q)
  | ret _ | drops _ => none
  | opens _ => some .opens
  | runs q _ => some (.runs q)
  | commits _ => some .commits

/-- The work after it heard what the server did with its request. -/
def hear : Verdict Q A X → Work Q A X T → Work Q A X T
  | _, ret r => ret r
  | _, drops r => drops r
  | .obeys _, opens next => next (.ok ())
  | .obeys answers, runs q next => next (.ok (answers q))
  | .obeys _, commits next => next (.ok ())
  | .reports x _, opens next => next (.error x)
  | .reports x _, runs _ next => next (.error x)
  | .reports x _, commits next => next (.error x)

/-- The work after its request failed. -/
def fail (x : X) : Work Q A X T → Work Q A X T
  | ret r => ret r
  | drops r => drops r
  | opens next => next (.error x)
  | runs _ next => next (.error x)
  | commits next => next (.error x)

/-- The work with its result read as `f` says. -/
def map {U : Type} (f : T → U) : Work Q A X T → Work Q A X U
  | ret r => ret (r.map f)
  | drops r => drops (r.map f)
  | opens next => opens fun heard => map f (next heard)
  | runs q next => runs q fun heard => map f (next heard)
  | commits next => commits fun heard => map f (next heard)

end Work

namespace Session

/-- A connection as the pool hands it over. -/
def fresh : Session Q A := ⟨.none, none, false, true, []⟩

def commit (s : Session Q A) (done : List (Done Q A)) : Session Q A :=
  { s with txn := .none, ledger := s.ledger ++ [done] }

/-- What the server does with a request. A statement outside a transaction is one
of its own; one that fails aborts its transaction, which then only ends. -/
def serve (undecided : X → Bool) (s : Session Q A) :
    Request Q → Verdict Q A X → Option (Session Q A)
  | .opens, .obeys _ =>
    match s.txn with
    | .none => some { s with txn := .running [] }
    | _ => some s
  | .opens, .reports _ _ => some s
  | .runs q, .obeys answers =>
    match s.txn with
    | .none => some (s.commit [⟨q, answers q⟩])
    | .running done => some { s with txn := .running (done ++ [⟨q, answers q⟩]) }
    | .aborted => none
  | .runs q, .reports x took =>
    match s.txn with
    | .none =>
      match undecided x, took with
      | true, some answers => some (s.commit [⟨q, answers q⟩])
      | _, _ => some s
    | _ => some { s with txn := .aborted }
  | .commits, .obeys _ =>
    match s.txn with
    | .running done => some (s.commit done)
    | _ => some { s with txn := .none }
  | .commits, .reports x took =>
    match s.txn, undecided x, took with
    | .running done, true, some _ => some (s.commit done)
    | _, _, _ => some { s with txn := .none }

/-- The server executes the request it was sent. -/
def execute (undecided : X → Bool) (s : Session Q A) (verdict : Verdict Q A X) :
    Option (Session Q A) :=
  match s.asked with
  | none => none
  | some request => serve undecided { s with asked := none } request verdict

/-- The server rolls back, once it is asked to and has nothing else to do. -/
def rollBack (s : Session Q A) : Session Q A :=
  if s.asked.isNone && s.ending then { s with txn := .none, ending := false } else s

/-- The server's session ends, and its transaction with it. -/
def die (s : Session Q A) : Session Q A :=
  { s with txn := .none, asked := none, ending := false, alive := false }

/-- The client can send no more. -/
def cut (s : Session Q A) : Session Q A := { s with alive := false }

/-- What a client sends at the head of its work. -/
def issue (s : Session Q A) (work : Work Q A X T) : Session Q A :=
  if s.alive then
    match work with
    | .ret _ => s
    | .drops _ => { s with ending := true }
    | .opens _ => { s with asked := some .opens }
    | .runs q _ => { s with asked := some (.runs q) }
    | .commits _ => { s with asked := some .commits }
  else s

end Session

/-- How far work has come: nothing ran, or a transaction is open, or it
committed, or a request failed. -/
inductive Mode (Q : Type) (A : Q → Type) (X : Type)
  | outside
  | inside (done : List (Done Q A))
  | after (done : List (Done Q A))
  | failed (error : X)

/-- What an answer of the work says: that nothing was done, or what was. -/
structure Meaning (Q : Type) (A : Q → Type) (X T : Type) where
  undecided : X → Bool
  refused : T → Prop
  did : T → List (Done Q A) → Prop

namespace Meaning

variable (M : Meaning Q A X T)

/-- Work that makes at most one transaction, ends at the first failure, and
answers only what is so. -/
def Disciplined : Work Q A X T → Mode Q A X → Prop
  | .ret (.ok t), .outside => M.refused t
  | .ret (.ok t), .after done => M.did t done
  | .ret (.ok t), .failed x => M.refused t ∧ M.undecided x = false
  | .ret (.error _), .outside => True
  | .ret (.error y), .failed x => y = x
  | .drops (.ok t), .inside _ => M.refused t
  | .drops (.error _), .inside _ => True
  | .drops (.error y), .failed x => y = x
  | .opens next, .outside =>
    Disciplined (next (.ok ())) (.inside []) ∧ ∀ x, Disciplined (next (.error x)) (.failed x)
  | .runs q next, .outside =>
    (∀ a, Disciplined (next (.ok a)) (.after [⟨q, a⟩])) ∧
      ∀ x, Disciplined (next (.error x)) (.failed x)
  | .runs q next, .inside done =>
    (∀ a, Disciplined (next (.ok a)) (.inside (done ++ [⟨q, a⟩]))) ∧
      ∀ x, Disciplined (next (.error x)) (.failed x)
  | .commits next, .inside done =>
    Disciplined (next (.ok ())) (.after done) ∧ ∀ x, Disciplined (next (.error x)) (.failed x)
  | _, _ => False

end Meaning

namespace Session

/-- How many transactions the request it was sent can still commit. -/
def left (s : Session Q A) : Nat :=
  match s.asked, s.txn with
  | some (.runs _), .none => 1
  | some .commits, .running _ => 1
  | _, _ => 0

def AtMostOnce (s : Session Q A) : Prop := s.ledger.length + s.left ≤ 1

end Session

/-- The transaction that work is in. -/
def Mode.txn : Mode Q A X → Txn Q A
  | .inside done => .running done
  | _ => .none

namespace Meaning

variable (M : Meaning Q A X T)

/-- A session whose requests were all executed, as far as the work has come. -/
def Matches (s : Session Q A) : Mode Q A X → Prop
  | .after done => s.asked = none ∧ s.ledger = [done]
  | .failed x => s.asked = none ∧ s.ledger.length ≤ 1 ∧ (M.undecided x = false → s.ledger = [])
  | mode => s.asked = none ∧ s.ledger = [] ∧ (s.alive = true → s.txn = mode.txn)

/-- A session that was sent what the work waits for, or is gone. -/
structure Waits (w : Work Q A X T) (s : Session Q A) : Prop where
  going : w.result = none
  ledger : s.ledger = []
  asked : s.asked = none ∨ s.asked = w.request ∧ ∃ mode, M.Disciplined w mode ∧ s.txn = mode.txn
  disciplined : ∃ mode, M.Disciplined w mode

/-- What a result says of the transactions that the session committed, and still
can. -/
def Settled (s : Session Q A) : Except X T → Prop
  | .ok t => s.asked = none ∧
      (M.refused t ∧ s.ledger = [] ∨ ∃ done, M.did t done ∧ s.ledger = [done])
  | .error x => s.AtMostOnce ∧ (M.undecided x = false → s.asked = none ∧ s.ledger = [])

end Meaning

/-- Work whose results are read otherwise is disciplined as it was. -/
theorem map_disciplined {U : Type} {f : T → U} {undecided : X → Bool} {refused : U → Prop}
    {did : U → List (Done Q A) → Prop} {w : Work Q A X T} {mode : Mode Q A X}
    (h : (Meaning.mk undecided (fun t => refused (f t)) fun t => did (f t)).Disciplined w mode) :
    (Meaning.mk undecided refused did).Disciplined (w.map f) mode := by
  induction w generalizing mode with
  | ret r => cases r <;> cases mode <;> exact h
  | drops r => cases r <;> cases mode <;> exact h
  | opens next ih =>
    cases mode with
    | outside => exact ⟨ih (.ok ()) h.1, fun x => ih (.error x) (h.2 x)⟩
    | _ => exact h.elim
  | runs q next ih =>
    cases mode with
    | outside => exact ⟨fun a => ih (.ok a) (h.1 a), fun x => ih (.error x) (h.2 x)⟩
    | inside done => exact ⟨fun a => ih (.ok a) (h.1 a), fun x => ih (.error x) (h.2 x)⟩
    | _ => exact h.elim
  | commits next ih =>
    cases mode with
    | inside done => exact ⟨ih (.ok ()) h.1, fun x => ih (.error x) (h.2 x)⟩
    | _ => exact h.elim

variable {M : Meaning Q A X T} {s t : Session Q A} {w : Work Q A X T} {mode : Mode Q A X}

theorem left_none (idle : s.asked = none) : s.left = 0 := by
  simp [Session.left, idle]

theorem left_le (s : Session Q A) : s.left ≤ 1 := by
  unfold Session.left
  split <;> omega

/-- A request that fails leaves the work with that failure. -/
theorem fail_result {x : X} (disciplined : M.Disciplined w mode) (going : w.result = none)
    (lost : M.undecided x = true) : (w.fail x).result = some (.error x) := by
  have ends (next : Work Q A X T) (failed : M.Disciplined next (.failed x)) :
      next.result = some (.error x) := by
    cases next with
    | ret r =>
      cases r with
      | ok t =>
        have known := failed.2
        rw [lost] at known
        cases known
      | error y =>
        have same : y = x := failed
        rw [same]
        rfl
    | drops r =>
      cases r with
      | ok t => exact failed.elim
      | error y =>
        have same : y = x := failed
        rw [same]
        rfl
    | opens next => exact failed.elim
    | runs q next => exact failed.elim
    | commits next => exact failed.elim
  cases w with
  | ret r => cases going
  | drops r => cases going
  | opens next =>
    cases mode with
    | outside => exact ends _ (disciplined.2 x)
    | _ => exact disciplined.elim
  | runs q next =>
    cases mode with
    | outside => exact ends _ (disciplined.2 x)
    | inside done => exact ends _ (disciplined.2 x)
    | _ => exact disciplined.elim
  | commits next =>
    cases mode with
    | inside done => exact ends _ (disciplined.2 x)
    | _ => exact disciplined.elim

/-- What the work hears is what the session has come to. -/
theorem hear_matches {request : Request Q} {verdict : Verdict Q A X}
    (disciplined : M.Disciplined w mode) (asks : w.request = some request) (idle : s.asked = none)
    (ledger : s.ledger = []) (txn : s.txn = mode.txn)
    (served : s.serve M.undecided request verdict = some t) :
    ∃ next, M.Disciplined (w.hear verdict) next ∧ M.Matches t next := by
  have few (u : Session Q A) (h : u.ledger = []) : u.ledger.length ≤ 1 := by
    rw [h]
    exact Nat.zero_le 1
  cases w with
  | ret r => cases asks
  | drops r => cases asks
  | opens next =>
    cases asks
    cases mode with
    | outside =>
      have none : s.txn = .none := txn
      cases verdict with
      | obeys answers =>
        simp only [Session.serve, none] at served
        cases served
        exact ⟨.inside [], disciplined.1, idle, ledger, fun _ => rfl⟩
      | reports x took =>
        cases served
        exact ⟨.failed x, disciplined.2 x, idle, few s ledger, fun _ => ledger⟩
    | _ => exact disciplined.elim
  | runs q next =>
    cases asks
    cases mode with
    | outside =>
      have none : s.txn = .none := txn
      cases verdict with
      | obeys answers =>
        simp only [Session.serve, none] at served
        cases served
        exact ⟨.after [⟨q, answers q⟩], disciplined.1 (answers q), idle, by
          simp [Session.commit, ledger]⟩
      | reports x took =>
        simp only [Session.serve, none] at served
        refine ⟨.failed x, disciplined.2 x, ?_⟩
        split at served
        · rename_i answers open_
          cases served
          refine ⟨idle, by simp [Session.commit, ledger], fun known => ?_⟩
          rw [open_] at known
          cases known
        · cases served
          exact ⟨idle, few s ledger, fun _ => ledger⟩
    | inside done =>
      have running : s.txn = .running done := txn
      cases verdict with
      | obeys answers =>
        simp only [Session.serve, running] at served
        cases served
        exact ⟨.inside (done ++ [(⟨q, answers q⟩ : Done Q A)]), disciplined.1 (answers q), idle, ledger,
          fun _ => rfl⟩
      | reports x took =>
        simp only [Session.serve, running] at served
        cases served
        exact ⟨.failed x, disciplined.2 x, idle, few s ledger, fun _ => ledger⟩
    | _ => exact disciplined.elim
  | commits next =>
    cases asks
    cases mode with
    | inside done =>
      have running : s.txn = .running done := txn
      cases verdict with
      | obeys answers =>
        simp only [Session.serve, running] at served
        cases served
        exact ⟨.after done, disciplined.1, idle, by simp [Session.commit, ledger]⟩
      | reports x took =>
        simp only [Session.serve, running] at served
        refine ⟨.failed x, disciplined.2 x, ?_⟩
        split at served
        · rename_i done' answers running' open_
          cases served
          refine ⟨idle, by simp [Session.commit, ledger], fun known => ?_⟩
          rw [open_] at known
          cases known
        · cases served
          exact ⟨idle, few s ledger, fun _ => ledger⟩
    | _ => exact disciplined.elim

@[simp] theorem issue_ledger (s : Session Q A) (w : Work Q A X T) :
    (s.issue w).ledger = s.ledger := by
  unfold Session.issue
  split
  · split <;> rfl
  · rfl

@[simp] theorem issue_txn (s : Session Q A) (w : Work Q A X T) : (s.issue w).txn = s.txn := by
  unfold Session.issue
  split
  · split <;> rfl
  · rfl

theorem issue_asked (s : Session Q A) (idle : s.asked = none) (w : Work Q A X T) :
    (s.issue w).asked = if s.alive then w.request else none := by
  unfold Session.issue
  split
  · cases w <;> first | exact idle | rfl
  · exact idle

theorem issue_ending (s : Session Q A) (going : w.result = none) :
    (s.issue w).ending = s.ending := by
  unfold Session.issue
  split
  · cases w with
    | ret r => cases going
    | drops r => cases going
    | _ => rfl
  · rfl

/-- Work that goes on has made nothing final, and waits for what it sent. -/
theorem issue_waits (disciplined : M.Disciplined w mode) (come : M.Matches s mode)
    (going : w.result = none) : M.Waits w (s.issue w) := by
  have idle : s.asked = none := by cases mode <;> exact come.1
  have asked := issue_asked s idle w
  have open_ : s.ledger = [] ∧ (s.alive = true → s.txn = mode.txn) := by
    cases mode with
    | outside => exact come.2
    | inside done => exact come.2
    | after done => cases w <;> first | exact disciplined.elim | cases going
    | failed x => cases w <;> first | exact disciplined.elim | cases going
  refine ⟨going, (issue_ledger s w).trans open_.1, ?_, mode, disciplined⟩
  by_cases alive : s.alive = true
  · rw [if_pos alive] at asked
    exact .inr ⟨asked, mode, disciplined, (issue_txn s w).trans (open_.2 alive)⟩
  · rw [if_neg alive] at asked
    exact .inl asked

theorem request_result {r : Except X T} (ends : w.result = some r) : w.request = none := by
  cases w <;> first | rfl | cases ends

/-- Work that ends says what is so. -/
theorem issue_settled {r : Except X T} (disciplined : M.Disciplined w mode)
    (come : M.Matches s mode) (ends : w.result = some r) : M.Settled (s.issue w) r := by
  have idle : s.asked = none := by cases mode <;> exact come.1
  have quiet : (s.issue w).asked = none := by
    rw [issue_asked s idle w, request_result ends]
    split <;> rfl
  have once (few : s.ledger.length ≤ 1) : (s.issue w).AtMostOnce := by
    rw [Session.AtMostOnce, left_none quiet, issue_ledger]
    exact few
  have error (x : X) (same : r = .error x) (few : s.ledger.length ≤ 1)
      (known : M.undecided x = false → s.ledger = []) : M.Settled (s.issue w) r := by
    rw [same]
    exact ⟨once few, fun h => ⟨quiet, (issue_ledger s w).trans (known h)⟩⟩
  have few (h : s.ledger = []) : s.ledger.length ≤ 1 := by
    rw [h]
    exact Nat.zero_le 1
  have refused {t : T} (same : r = .ok t) (no : M.refused t) (h : s.ledger = []) :
      M.Settled (s.issue w) r := by
    rw [same]
    exact ⟨quiet, .inl ⟨no, (issue_ledger s w).trans h⟩⟩
  rcases r with x | t
  · apply error x rfl
    · cases mode with
      | outside => exact few come.2.1
      | inside done => exact few come.2.1
      | after done =>
        rw [come.2]
        exact Nat.le_refl 1
      | failed y => exact come.2.1
    · cases mode with
      | outside => exact fun _ => come.2.1
      | inside done => exact fun _ => come.2.1
      | after done => cases w <;> cases ends <;> exact disciplined.elim
      | failed y =>
        cases w <;> cases ends
        · have same : x = y := disciplined
          rw [same]
          exact come.2.2
        · have same : x = y := disciplined
          rw [same]
          exact come.2.2
  · cases mode with
    | outside =>
      cases w <;> cases ends
      · exact refused rfl disciplined come.2.1
      · exact disciplined.elim
    | inside done =>
      cases w <;> cases ends
      · exact disciplined.elim
      · exact refused rfl disciplined come.2.1
    | after done =>
      cases w <;> cases ends
      · exact ⟨quiet, .inr ⟨done, disciplined, (issue_ledger s _).trans come.2⟩⟩
      · exact disciplined.elim
    | failed y =>
      cases w <;> cases ends
      · exact refused rfl disciplined.1 (come.2.2 disciplined.2)
      · exact disciplined.elim

/-- What a request commits, where it can commit at all. -/
theorem serve_ledger {undecided : X → Bool} {request : Request Q} {verdict : Verdict Q A X}
    (served : s.serve undecided request verdict = some t) :
    t.asked = s.asked ∧ t.ending = s.ending ∧ (t.ledger = s.ledger ∨
      ({ s with asked := some request } : Session Q A).left = 1 ∧
        ∃ done, t.ledger = s.ledger ++ [done]) := by
  revert served
  fun_cases Session.serve undecided s request verdict with
  | case4 | case7 | case10 | case12 =>
    intro served
    cases served
    exact ⟨rfl, rfl, .inr ⟨by simp [Session.left, *], _, rfl⟩⟩
  | _ =>
    intro served
    cases served <;> exact ⟨rfl, rfl, .inl rfl⟩

/-- A request commits at most one transaction. -/
theorem execute_once {undecided : X → Bool} {verdict : Verdict Q A X} (once : s.AtMostOnce)
    (executed : s.execute undecided verdict = some t) : t.AtMostOnce ∧ t.asked = none := by
  rw [Session.execute] at executed
  cases asked : s.asked with
  | none =>
    rw [asked] at executed
    cases executed
  | some request =>
    rw [asked] at executed
    obtain ⟨idle, -, same | ⟨able, done, more⟩⟩ := serve_ledger executed
    · refine ⟨?_, idle⟩
      rw [Session.AtMostOnce, left_none idle, same]
      unfold Session.AtMostOnce at once
      dsimp only
      omega
    · refine ⟨?_, idle⟩
      have whole : ({ s with asked := some request } : Session Q A) = s := by rw [← asked]
      rw [whole] at able
      rw [Session.AtMostOnce, left_none idle, more, List.length_append, List.length_singleton]
      unfold Session.AtMostOnce at once
      dsimp only
      omega

/-- What a result says stays so, whatever the server still does. -/
theorem settled_execute {verdict : Verdict Q A X} {r : Except X T} (settled : M.Settled s r)
    (executed : s.execute M.undecided verdict = some t) : M.Settled t r := by
  have asked : s.asked ≠ none := by
    intro idle
    rw [Session.execute, idle] at executed
    cases executed
  cases r with
  | ok u => exact absurd settled.1 asked
  | error x =>
    have once := execute_once settled.1 executed
    exact ⟨once.1, fun known => absurd (settled.2 known).1 asked⟩

theorem settled_idle {r : Except X T} (settled : M.Settled s r) (ledger : t.ledger = s.ledger)
    (fewer : t.left ≤ s.left) (idle : s.asked = none → t.asked = none) : M.Settled t r := by
  cases r with
  | ok u =>
    rw [Meaning.Settled, ledger]
    exact ⟨idle settled.1, settled.2⟩
  | error x =>
    have once := settled.1
    unfold Session.AtMostOnce at once
    refine ⟨?_, fun known => ?_⟩
    · rw [Session.AtMostOnce, ledger]
      omega
    · rw [ledger]
      exact ⟨idle (settled.2 known).1, (settled.2 known).2⟩

end QuantForge.Remote
