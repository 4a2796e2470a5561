import Cascade.Pool.Queue
import Cascade.Proofs.Pool.Finish
import Mathlib.Algebra.BigOperators.Group.List.Basic
import Mathlib.Algebra.Group.Action.Defs
import Mathlib.Algebra.GroupWithZero.Nat
import Mathlib.Algebra.Order.BigOperators.Group.List
import Mathlib.Algebra.Order.Group.Nat
import Mathlib.Order.Bounds.Basic

/-!
# The accounts of a pool that works through a queue

Which worker takes which response depends on the schedule.  What the
workers take together does not: it is the shortest beginning of the queue
that lets every worker end.

There are four groups.

* What one response means to the worker that takes it: whether it ends that
  worker, and what it records in the queue.
* `Shift` is a pool whose workers have names for what they are doing, with a
  list of what was taken.  Its steps are those of the pool (`Shift.pool_step`).
* `Shift.Kept` are the accounts of a shift, with one lemma for each of the
  three things that a worker does, and `Shift.Kept.step` for all of them.
* `Queue.run_takes_least` says what a whole run comes to.
-/

namespace Cascade

/-! ## Responses -/

namespace Response

/-- How a worker stands after a response: `.ok ()` if it ends in good order
or goes on to the next request. -/
def outcome : Response → Except Fault Unit
  | .succeed _ _ | .nothing => .ok ()
  | .fail e _ | .refuse e => .error (.error e)
  | .crash _ => .error .crash

/-- Why a worker that takes the response ends early, if it does. -/
def fault? (r : Response) : Option Fault :=
  match r.outcome with
  | .ok _ => none
  | .error fault => some fault

/-- Whether a worker that takes the response ends.  Only work that succeeds
lets it ask again. -/
def isTerminal : Response → Bool
  | .succeed _ _ => false
  | _ => true

/-- The name that is recorded when the work succeeds. -/
def name? : Response → Option String
  | .succeed name _ => some name
  | _ => none

/-- How often the work pauses, if the response is work at all. -/
def pauses? : Response → Option Nat
  | .succeed _ pauses | .fail _ pauses | .crash pauses => some pauses
  | .refuse _ | .nothing => none

/-- What the work does to the queue when it is completed. -/
def effect : Response → Queue → Queue
  | .succeed name _ => fun q => { q with succeeded := q.succeeded ++ [name] }
  | _ => id

theorem fault?_eq_some_iff {r : Response} {fault : Fault} :
    r.fault? = some fault ↔ r.outcome = .error fault := by
  rw [fault?]
  cases r.outcome <;> simp

/-- Work that does not end its worker has no fault. -/
theorem outcome_of_not_isTerminal {r : Response} (h : r.isTerminal = false) :
    r.outcome = .ok () := by
  cases r <;> first | rfl | cases h

/-- Only work leaves a record. -/
theorem isTerminal_of_not_work {r : Response} (h : r.pauses? = none) :
    r.isTerminal = true ∧ r.name? = none := by
  cases r <;> simp [isTerminal, name?, pauses?] at h ⊢

theorem effect_eq (r : Response) (q : Queue) :
    r.effect q = { q with succeeded := q.succeeded ++ r.name?.toList } := by
  cases r <;> simp [effect, name?]

end Response

namespace Queue

/-- The first `n` responses of a queue; behind its last one there is nothing
for ever. -/
def served (responses : List Response) (n : Nat) : List Response :=
  (List.range n).map fun k => responses.getD k .nothing

theorem served_succ (responses : List Response) (n : Nat) :
    served responses (n + 1) = served responses n ++ [responses.getD n .nothing] := by
  simp [served, List.range_succ]

/-- The response that the next request gets. -/
def front (q : Queue) : Response := q.left.head?.getD .nothing

/-- The queue after a request. -/
def asked (q : Queue) : Queue := { q with left := q.left.tail, requests := q.requests + 1 }

/-- A request is never kept waiting. -/
theorem ask_eq (i : Nat) (q : Queue) :
    provider.ask i () q = some (q.asked, if q.left = [] then .exhausted else progress q.front) := by
  obtain ⟨left, requests, succeeded⟩ := q
  cases left <;> rfl

/-- Work that runs without interruption. -/
theorem run_paused (n : Nat) (update : Queue → Queue) (outcome : Except Fault Unit) (q : Queue) :
    (paused n update outcome).run q = (outcome, update q) := by
  induction n with
  | zero => rfl
  | succ n ih => exact ih

end Queue

/-! ## Shifts -/

/-- What a worker is doing: it asks, works with pauses still to come, has
completed its work, or has ended. -/
inductive Station where
  | asking
  | busy (r : Response) (pauses : Nat)
  | leaving (r : Response)
  | ended (r : Response)

namespace Station

/-- The worker at a station. -/
def worker : Station → Worker Unit Queue
  | .asking => .asking ()
  | .busy r pauses => .working (Queue.paused pauses r.effect r.outcome)
  | .leaving r => .working (.done r.outcome)
  | .ended r => .ended r.outcome

/-- Where a worker goes with a response. -/
def onto (r : Response) : Station :=
  match r.pauses? with
  | some pauses => .busy r pauses
  | none => .ended r

/-- Where a worker goes from work that it has completed. -/
def beyond (r : Response) : Station :=
  match r.outcome with
  | .ok _ => .asking
  | .error _ => .ended r

/-- Whether a worker has taken the response that ends it. -/
def isTerminal : Station → Bool
  | .asking => false
  | .busy r _ | .leaving r | .ended r => r.isTerminal

/-- The name of work that will succeed and is not completed. -/
def undone? : Station → Option String
  | .busy r _ => r.name?
  | _ => none

/-- What a worker weighs that may have to ask, or to complete its work. -/
def weight : Worker Unit Queue → Nat
  | .asking _ => 1
  | .working _ => 2
  | .ended _ => 0

/-- How what a worker is doing goes with all that it has taken: everything
but the last response was work that succeeded. -/
def Stands (own : List Response) : Station → Prop
  | .asking => ∀ r ∈ own, r.isTerminal = false
  | .busy r _ | .leaving r =>
    r.pauses?.isSome ∧ ∃ before, own = before ++ [r] ∧ ∀ r' ∈ before, r'.isTerminal = false
  | .ended r =>
    r.isTerminal = true ∧ ∃ before, own = before ++ [r] ∧ ∀ r' ∈ before, r'.isTerminal = false

theorem worker_onto (q : Queue) :
    Worker.ofProgress (if q.left = [] then .exhausted else Queue.progress q.front) =
      (onto q.front).worker := by
  obtain ⟨left, requests, succeeded⟩ := q
  cases left with
  | nil => rfl
  | cons r rest => cases r <;> rfl

theorem worker_beyond (r : Response) : Worker.afterJob () r.outcome = (beyond r).worker := by
  cases r <;> rfl

theorem isTerminal_onto (r : Response) : (onto r).isTerminal = r.isTerminal := by
  cases r <;> rfl

theorem undone?_onto (r : Response) : (onto r).undone? = r.name? := by
  cases r <;> rfl

/-- A worker goes on only from work that does not end it. -/
theorem beyond_eq {r : Response} (h : r.pauses?.isSome) :
    beyond r = if r.isTerminal then .ended r else .asking := by
  cases r <;> first | rfl | cases h

end Station

/-- A pool at work on a queue, and what was taken from the queue so far, by
whom. -/
structure Shift where
  queue : Queue
  taken : List (Nat × Response)
  stations : List Station

namespace Shift

open Station Queue

variable {responses : List Response} {s s' : Shift} {i : Nat}

/-- The pool of a shift. -/
def pool (s : Shift) : Pool Unit Queue := ⟨s.queue, s.stations.map worker⟩

/-- The responses that one worker has taken. -/
def takenBy (taken : List (Nat × Response)) (i : Nat) : List Response :=
  (taken.filter (·.1 = i)).map (·.2)

/-- One step of a worker. -/
def step (s : Shift) (i : Nat) : Option Shift :=
  match s.stations[i]? with
  | some .asking =>
    some ⟨s.queue.asked, s.taken ++ [(i, s.queue.front)], s.stations.set i (onto s.queue.front)⟩
  | some (.busy r (pauses + 1)) => some { s with stations := s.stations.set i (.busy r pauses) }
  | some (.busy r 0) =>
    some { s with queue := r.effect s.queue, stations := s.stations.set i (.leaving r) }
  | some (.leaving r) => some { s with stations := s.stations.set i (beyond r) }
  | some (.ended _) | none => none

/-- The steps of a schedule. -/
def follow (s : Shift) (schedule : List Nat) : Shift :=
  schedule.foldl (fun s i => (s.step i).getD s) s

/-- A shift that begins. -/
def start (count : Nat) (responses : List Response) : Shift :=
  ⟨ofList responses, [], List.replicate count .asking⟩

theorem pool_start (count : Nat) (responses : List Response) :
    (start count responses).pool = Pool.start provider count (ofList responses) := by
  rw [pool, start, Pool.start, List.map_replicate]
  rfl

/-- The steps of a shift are those of its pool. -/
theorem pool_step (s : Shift) (i : Nat) : s.pool.step provider i = (s.step i).map pool := by
  rw [Pool.step, step, pool, List.getElem?_map]
  cases h : s.stations[i]? with
  | none => rfl
  | some station =>
    cases station with
    | asking =>
      simp only [Option.map_some, worker, ask_eq, pool, List.map_set, worker_onto]
    | busy r pauses => cases pauses <;> simp [worker, paused, pool, List.map_set]
    | leaving r => simpa [worker, pool, List.map_set] using congrArg _ (worker_beyond r)
    | ended r => rfl

end Shift

namespace Queue

/-- What a step of a worker takes from the queue. -/
def taking (pool : Pool Unit Queue) (i : Nat) : List (Nat × Response) :=
  match pool.workers[i]? with
  | some (.asking _) => [(i, pool.shared.front)]
  | _ => []

/-- What the steps of a schedule take from the queue, in their order, each
response with the worker that takes it. -/
def takings (pool : Pool Unit Queue) : List Nat → List (Nat × Response)
  | [] => []
  | i :: schedule =>
    taking pool i ++ takings ((pool.step provider i).getD pool) schedule

/-- All steps of a run: those of its schedule, and those that finish it. -/
def course (schedule : List Nat) (count : Nat) (responses : List Response) : List Nat :=
  schedule ++
    ((Pool.start provider count (ofList responses)).follow provider schedule).finishing provider
      (2 * responses.length + 2 * count + 1)

theorem run_eq_follow (schedule : List Nat) (count : Nat) (responses : List Response) :
    run schedule count responses =
      (Pool.start provider count (ofList responses)).follow provider
        (course schedule count responses) := by
  rw [course, Pool.follow_append, ← Pool.finish_eq_follow]
  rfl

end Queue

namespace Shift

open Station Queue

variable {responses : List Response} {s s' : Shift} {i : Nat}

theorem taken_step (s : Shift) (i : Nat) :
    ((s.step i).getD s).taken = s.taken ++ taking s.pool i := by
  rw [step, taking, pool, List.getElem?_map]
  cases s.stations[i]? with
  | none => simp
  | some station =>
    cases station with
    | busy r pauses => cases pauses <;> simp [worker]
    | _ => simp [worker]

/-- A shift follows the schedule of its pool and takes what the pool takes. -/
theorem follow_spec (s : Shift) (schedule : List Nat) :
    (s.follow schedule).pool = s.pool.follow provider schedule ∧
      (s.follow schedule).taken = s.taken ++ takings s.pool schedule := by
  induction schedule generalizing s with
  | nil => exact ⟨rfl, (List.append_nil _).symm⟩
  | cons i rest ih =>
    obtain ⟨hpool, htaken⟩ := ih ((s.step i).getD s)
    have hnext : ((s.step i).getD s).pool = (s.pool.step provider i).getD s.pool := by
      rw [pool_step, Option.getD_map]
    rw [hnext] at hpool htaken
    refine ⟨hpool, ?_⟩
    rw [takings, ← List.append_assoc, ← taken_step]
    exact htaken

/-! ## Accounts -/

/-- The accounts of a shift on a queue of `responses`. -/
structure Kept (responses : List Response) (s : Shift) : Prop where
  order : s.taken.map (·.2) = served responses s.taken.length
  left : s.queue.left = responses.drop s.taken.length
  requests : s.queue.requests = s.taken.length
  takers : ∀ t ∈ s.taken, t.1 < s.stations.length
  stands : ∀ {i : Nat} {station : Station}, s.stations[i]? = some station →
    station.Stands (takenBy s.taken i)
  /-- As many workers have met their end as responses that end a worker were
  taken. -/
  terminal : s.taken.countP (·.2.isTerminal) = s.stations.countP isTerminal
  /-- Work that was taken and succeeds is recorded sooner or later. -/
  recorded : (s.taken.filterMap (·.2.name?)).Perm
    (s.queue.succeeded ++ s.stations.filterMap undone?)
  /-- Whenever something was taken, a worker was left to take it. -/
  needed : ∀ m < s.taken.length, (served responses m).countP (·.isTerminal) < s.stations.length

theorem kept_start (count : Nat) (responses : List Response) :
    (start count responses).Kept responses where
  order := rfl
  left := rfl
  requests := rfl
  takers := List.forall_mem_nil _
  stands h := by
    simp only [start, List.getElem?_replicate, Option.ite_none_right_eq_some,
      Option.some.injEq] at h
    obtain ⟨_, rfl⟩ := h
    exact List.forall_mem_nil _
  terminal := by simp [start, List.countP_replicate, isTerminal]
  recorded := by simp [start, ofList, undone?]
  needed m hm := absurd hm (Nat.not_lt_zero m)

namespace Kept

/-- A number that is counted over all workers, when one of them changes. -/
theorem countP_set {l : List Station} {a : Station} (h : l[i]? = some a) (b : Station) :
    (l.set i b).countP isTerminal + (if a.isTerminal then 1 else 0) =
      l.countP isTerminal + if b.isTerminal then 1 else 0 := by
  obtain ⟨rest, hl, hset⟩ := exists_perm_set h b
  rw [hl.countP_eq, hset.countP_eq, List.countP_cons, List.countP_cons]
  omega

theorem front_eq (hk : s.Kept responses) :
    s.queue.front = responses.getD s.taken.length .nothing := by
  rw [front, hk.left, List.head?_drop, List.getD_eq_getElem?_getD]

/-- A worker that asks has taken nothing yet that ends it, so fewer workers
than there are have. -/
theorem countP_lt (hk : s.Kept responses) (h : s.stations[i]? = some .asking) :
    s.taken.countP (·.2.isTerminal) < s.stations.length := by
  rw [hk.terminal]
  have hle : s.stations.countP isTerminal ≤ s.stations.length := List.countP_le_length
  have hne : s.stations.countP isTerminal ≠ s.stations.length := by
    intro heq
    have hall := List.countP_eq_length.mp heq .asking (List.mem_of_getElem? h)
    cases hall
  omega

theorem countP_served (hk : s.Kept responses) :
    (served responses s.taken.length).countP (·.isTerminal) =
      s.taken.countP (·.2.isTerminal) := by
  rw [← hk.order, List.countP_map]
  rfl

/-- A request takes the next response. -/
theorem take (hk : s.Kept responses) (h : s.stations[i]? = some .asking) :
    Kept responses ⟨s.queue.asked, s.taken ++ [(i, s.queue.front)],
      s.stations.set i (onto s.queue.front)⟩ where
  order := by
    rw [List.map_append, hk.order, List.length_append, List.length_singleton, served_succ,
      hk.front_eq]
    rfl
  left := by
    rw [asked, hk.left, List.tail_drop, List.length_append, List.length_singleton]
  requests := by
    rw [asked, hk.requests, List.length_append, List.length_singleton]
  takers t ht := by
    rw [List.length_set]
    rcases List.mem_append.mp ht with hold | hnew
    · exact hk.takers t hold
    · rw [List.mem_singleton.mp hnew]
      exact (List.getElem?_eq_some_iff.mp h).1
  stands {j station} hj := by
    rcases cases_of_getElem?_set hj with ⟨rfl, rfl⟩ | ⟨hne, hother⟩
    · have hown : takenBy (s.taken ++ [(j, s.queue.front)]) j =
          takenBy s.taken j ++ [s.queue.front] := by
        simp [takenBy]
      have hasking : ∀ r ∈ takenBy s.taken j, r.isTerminal = false := hk.stands h
      rw [hown, onto]
      split
      · rename_i hpauses
        exact ⟨by rw [hpauses]; rfl, _, rfl, hasking⟩
      · rename_i hpauses
        exact ⟨(Response.isTerminal_of_not_work hpauses).1, _, rfl, hasking⟩
    · have hown : takenBy (s.taken ++ [(i, s.queue.front)]) j = takenBy s.taken j := by
        simp [takenBy, Ne.symm hne]
      rw [hown]
      exact hk.stands hother
  terminal := by
    have hset := countP_set h (onto s.queue.front)
    rw [isTerminal_onto] at hset
    rw [List.countP_append, hk.terminal, List.countP_singleton]
    simpa [Station.isTerminal] using hset.symm
  recorded := by
    obtain ⟨rest, hold, hnew⟩ := perm_filterMap_set undone? h (onto s.queue.front)
    rw [undone?_onto] at hnew
    have hturn : (s.queue.front.name?.toList ++ (asking : Station).undone?.toList).Perm
        ([] ++ s.queue.front.name?.toList) := by simp [undone?]
    have hbalance := perm_balance hk.recorded hold hnew hturn
    rw [List.filterMap_append]
    have hone : [(i, s.queue.front)].filterMap (·.2.name?) = s.queue.front.name?.toList := by
      cases hname : s.queue.front.name? <;> simp [hname]
    rw [hone]
    simpa [asked] using hbalance
  needed m hm := by
    rw [List.length_append, List.length_singleton] at hm
    rw [List.length_set]
    by_cases hlast : m = s.taken.length
    · rw [hlast, hk.countP_served]
      exact hk.countP_lt h
    · exact hk.needed m (by omega)

/-- A step at work takes nothing.  The queue changes in its record at most,
and what is recorded was undone before. -/
theorem work (hk : s.Kept responses) {station station' : Station} (record : List String)
    (h : s.stations[i]? = some station)
    (hstands : station'.Stands (takenBy s.taken i))
    (hterminal : station'.isTerminal = station.isTerminal)
    (hrecord : station.undone?.toList = record ++ station'.undone?.toList) :
    Kept responses ⟨{ s.queue with succeeded := s.queue.succeeded ++ record }, s.taken,
      s.stations.set i station'⟩ where
  order := hk.order
  left := hk.left
  requests := hk.requests
  takers t ht := by
    rw [List.length_set]
    exact hk.takers t ht
  stands {j station''} hj := by
    rcases cases_of_getElem?_set hj with ⟨rfl, rfl⟩ | ⟨_, hother⟩
    · exact hstands
    · exact hk.stands hother
  terminal := by
    have hset := countP_set h station'
    rw [hterminal, Nat.add_right_cancel_iff] at hset
    exact hk.terminal.trans hset.symm
  recorded := by
    obtain ⟨rest, hold, hnew⟩ := perm_filterMap_set undone? h station'
    have hturn : ([] ++ station.undone?.toList).Perm (record ++ station'.undone?.toList) := by
      rw [hrecord]
      exact .refl _
    simpa using perm_balance hk.recorded hold hnew hturn
  needed m hm := by
    rw [List.length_set]
    exact hk.needed m hm

/-- A worker that leaves its work asks again or has ended. -/
theorem leave (hk : s.Kept responses) {r : Response} (h : s.stations[i]? = some (.leaving r)) :
    Kept responses { s with stations := s.stations.set i (beyond r) } := by
  obtain ⟨hwork, before, hown, hbefore⟩ := hk.stands h
  have hstands : (beyond r).Stands (takenBy s.taken i) := by
    rw [beyond_eq hwork]
    by_cases hr : r.isTerminal = true
    · rw [if_pos hr]
      exact ⟨hr, before, hown, hbefore⟩
    · rw [if_neg hr]
      intro r' hr'
      rw [hown, List.mem_append, List.mem_singleton] at hr'
      rcases hr' with hold | rfl
      · exact hbefore r' hold
      · exact Bool.eq_false_iff.mpr hr
  have hterminal : (beyond r).isTerminal = (Station.leaving r).isTerminal := by
    rw [beyond_eq hwork]
    by_cases hr : r.isTerminal = true <;> simp [hr, Station.isTerminal]
  have hundone : (beyond r).undone? = none := by
    rw [beyond]
    cases r.outcome <;> rfl
  have hkept := hk.work [] h hstands hterminal (by rw [hundone]; rfl)
  simpa using hkept

/-- Whatever a worker does, the accounts are kept. -/
theorem step (hk : s.Kept responses) (h : s.step i = some s') : s'.Kept responses := by
  rw [Shift.step] at h
  split at h
  · rename_i hasking
    cases h
    exact hk.take hasking
  · rename_i r pauses hbusy
    cases h
    have hstands := hk.stands hbusy
    have hkept := hk.work [] hbusy (show (Station.busy r pauses).Stands _ from hstands) rfl rfl
    simpa using hkept
  · rename_i r hbusy
    cases h
    have hstands := hk.stands hbusy
    have hrecord : (Station.busy r 0).undone?.toList =
        r.name?.toList ++ (Station.leaving r).undone?.toList := (List.append_nil _).symm
    rw [Response.effect_eq]
    exact hk.work r.name?.toList hbusy hstands rfl hrecord
  · rename_i r hleaving
    cases h
    exact hk.leave hleaving
  · cases h
  · cases h

theorem follow (hk : s.Kept responses) (schedule : List Nat) :
    (s.follow schedule).Kept responses := by
  induction schedule generalizing s with
  | nil => exact hk
  | cons i rest ih =>
    have hnext : ((s.step i).getD s).Kept responses := by
      cases h : s.step i with
      | none => exact hk
      | some s' => exact hk.step h
    exact ih hnext

end Kept

theorem length_stations_follow (s : Shift) (schedule : List Nat) :
    (s.follow schedule).stations.length = s.stations.length := by
  induction schedule generalizing s with
  | nil => rfl
  | cons i rest ih =>
    have hstep : ((s.step i).getD s).stations.length = s.stations.length := by
      rw [step]
      split <;> simp
    exact (ih _).trans hstep

/-! ## The end of a shift -/

/-- What is left to do: a response costs a request and its work. -/
def measure (pool : Pool Unit Queue) : Nat :=
  2 * pool.shared.left.length + (pool.workers.map weight).sum

theorem sum_weight_set {l : List (Worker Unit Queue)} {a : Worker Unit Queue}
    (h : l[i]? = some a) (b : Worker Unit Queue) :
    ((l.set i b).map weight).sum + weight a = (l.map weight).sum + weight b := by
  obtain ⟨rest, hl, hset⟩ := exists_perm_set h b
  rw [(hl.map weight).sum_eq, (hset.map weight).sum_eq, List.map_cons, List.map_cons,
    List.sum_cons, List.sum_cons]
  omega

/-- Work that is done at once leaves less to do. -/
theorem measure_afterJob {pool : Pool Unit Queue} {job : Job Queue}
    (h : pool.workers[i]? = some (.working job))
    (hleft : (job.run pool.shared).2.left = pool.shared.left) :
    measure ⟨(job.run pool.shared).2,
      pool.workers.set i (.afterJob () (job.run pool.shared).1)⟩ < measure pool := by
  have hset := sum_weight_set h (.afterJob () (job.run pool.shared).1)
  have hlight : weight (.afterJob () (job.run pool.shared).1) ≤ 1 := by
    cases (job.run pool.shared).1 <;> simp [Worker.afterJob, weight]
  have hheavy : weight (.working job) = 2 := rfl
  simp only [measure, hleft]
  omega

/-- Whoever advances leaves less to do. -/
theorem measure_advance {pool' : Pool Unit Queue} (h : s.pool.advance provider i = some pool') :
    measure pool' < measure s.pool := by
  have hworker : s.pool.workers[i]? = s.stations[i]?.map worker := List.getElem?_map
  unfold Pool.advance at h
  cases hstation : s.stations[i]? with
  | none =>
    simp [hworker, hstation, pool_step, step] at h
  | some station =>
    rw [hstation, Option.map_some] at hworker
    cases station with
    | asking =>
      simp only [hworker, worker, pool_step, step, hstation, Option.map_some,
        Option.some.injEq] at h
      have hset := sum_weight_set hworker (onto s.queue.front).worker
      have hlight : weight (Station.worker .asking) = 1 := rfl
      have hheavy : weight (onto s.queue.front).worker ≤ 2 := by
        cases s.queue.front <;> simp [onto, Response.pauses?, worker, weight]
      have hnothing : s.queue.left = [] → weight (onto s.queue.front).worker = 0 := by
        intro hnil
        rw [front, hnil]
        rfl
      have htail : s.queue.left.tail.length = s.queue.left.length - 1 := List.length_tail
      rw [← h]
      simp only [measure, pool, asked, List.map_set] at hset ⊢
      by_cases hnil : s.queue.left = []
      · have hzero := hnothing hnil
        omega
      · have hpos := List.length_pos_iff.mpr hnil
        omega
    | busy r pauses =>
      simp only [hworker, worker, Option.some.injEq] at h
      rw [← h]
      refine measure_afterJob hworker ?_
      rw [run_paused, Response.effect_eq]
    | leaving r =>
      simp only [hworker, worker, Option.some.injEq] at h
      rw [← h]
      exact measure_afterJob hworker rfl
    | ended r =>
      simp [hworker, worker, pool_step, step, hstation] at h

/-- Everybody can move who has not ended. -/
theorem exists_ended_of_stuck (h : s.pool.Stuck provider) {station : Station}
    (hstation : s.stations[i]? = some station) : ∃ r, station = .ended r := by
  have hnone := h i
  rw [pool_step, Option.map_eq_none_iff, step, hstation] at hnone
  cases station with
  | ended r => exact ⟨r, rfl⟩
  | asking => cases hnone
  | busy r pauses => cases pauses <;> cases hnone
  | leaving r => cases hnone

theorem measure_le (hk : s.Kept responses) :
    measure s.pool ≤ 2 * responses.length + 2 * s.stations.length := by
  have hweight : ∀ w ∈ s.pool.workers.map weight, w ≤ 2 := by
    intro w hw
    obtain ⟨worker, _, rfl⟩ := List.mem_map.mp hw
    cases worker <;> simp [weight]
  have hsum := List.sum_le_card_nsmul _ 2 hweight
  have hleft : s.queue.left.length ≤ responses.length := by
    rw [hk.left, List.length_drop]
    omega
  simp only [List.length_map, pool, smul_eq_mul] at hsum
  simp only [measure, pool]
  omega

/-- A run is a shift that goes on until nobody can move. -/
theorem exists_shift (schedule : List Nat) (count : Nat) (responses : List Response) :
    ∃ s : Shift, s.pool = run schedule count responses ∧ s.Kept responses ∧
      s.stations.length = count ∧ s.pool.Stuck provider ∧
      s.taken = takings (Pool.start provider count (ofList responses))
        (course schedule count responses) := by
  have hstart := kept_start count responses
  have hlength (schedule : List Nat) :
      ((start count responses).follow schedule).stations.length = count := by
    rw [length_stations_follow, start, List.length_replicate]
  have hadvance : ∀ pool i pool', (∃ s : Shift, s.pool = pool) →
      pool.advance provider i = some pool' →
      (∃ s : Shift, s.pool = pool') ∧ measure pool' < measure pool := by
    rintro pool i pool' ⟨s, rfl⟩ h
    refine ⟨⟨s.follow (s.pool.advancing i), ?_⟩, measure_advance h⟩
    rw [(follow_spec ..).1, ← Pool.advance_eq_follow h]
  have hmeasure := measure_le (hstart.follow schedule)
  rw [hlength] at hmeasure
  have hfuel : measure ((start count responses).follow schedule).pool <
      2 * responses.length + 2 * count + 1 := by omega
  have hstuck := Pool.stuck_finish hadvance ⟨(start count responses).follow schedule, rfl⟩ hfuel
  obtain ⟨hpool, htaken⟩ := follow_spec (start count responses) (course schedule count responses)
  rw [pool_start] at hpool htaken
  rw [← run_eq_follow] at hpool
  refine ⟨_, hpool, hstart.follow _, hlength _, ?_, htaken⟩
  rw [hpool, run, ← pool_start, ← (follow_spec ..).1]
  exact hstuck

/-! ## What a shift comes to -/

theorem mem_takenBy {taken : List (Nat × Response)} {r : Response} :
    r ∈ takenBy taken i ↔ (i, r) ∈ taken := by
  simp [takenBy]

/-- Everybody has ended when nobody can move. -/
theorem ended_of_stuck (hstuck : s.pool.Stuck provider) :
    ∀ station ∈ s.stations, ∃ r, station = .ended r := by
  intro station hmem
  obtain ⟨i, hi⟩ := List.mem_iff_getElem?.mp hmem
  exact exists_ended_of_stuck hstuck hi

theorem isFinished_of_stuck (hstuck : s.pool.Stuck provider) : s.pool.isFinished = true := by
  rw [Pool.isFinished, List.all_eq_true]
  intro w hw
  obtain ⟨station, hmem, rfl⟩ := List.mem_map.mp hw
  obtain ⟨r, rfl⟩ := ended_of_stuck hstuck station hmem
  rfl

namespace Kept

/-- Everything that a worker took but the last response let it go on. -/
theorem exists_last (hk : s.Kept responses) (hstuck : s.pool.Stuck provider)
    (hi : i < s.stations.length) :
    ∃ before last, s.stations[i]? = some (.ended last) ∧ takenBy s.taken i = before ++ [last] ∧
      last.isTerminal = true ∧ ∀ r ∈ before, r.isTerminal = false := by
  have hget := List.getElem?_eq_getElem hi
  obtain ⟨last, hlast⟩ := exists_ended_of_stuck hstuck hget
  rw [hlast] at hget
  obtain ⟨hend, before, hown, hbefore⟩ := hk.stands hget
  exact ⟨before, last, hget, hown, hend, hbefore⟩

/-- What was taken is the shortest beginning of the queue with a response for
every worker that ends it. -/
theorem isLeast (hk : s.Kept responses) (hstuck : s.pool.Stuck provider) :
    IsLeast {n | (served responses n).countP (·.isTerminal) = s.stations.length}
      s.taken.length := by
  constructor
  · rw [Set.mem_ofPred_eq, hk.countP_served, hk.terminal, List.countP_eq_length]
    intro station hmem
    obtain ⟨r, rfl⟩ := ended_of_stuck hstuck station hmem
    obtain ⟨i, hi⟩ := List.mem_iff_getElem?.mp hmem
    exact (hk.stands hi).1
  · intro n hn
    by_contra hlt
    have hneeded := hk.needed n (Nat.lt_of_not_le hlt)
    rw [Set.mem_ofPred_eq.mp hn] at hneeded
    exact Nat.lt_irrefl _ hneeded

/-- The work that succeeds is completed. -/
theorem succeeded_perm (hk : s.Kept responses) (hstuck : s.pool.Stuck provider) :
    s.queue.succeeded.Perm (s.taken.filterMap (·.2.name?)) := by
  have hnone : s.stations.filterMap undone? = [] := by
    rw [List.filterMap_eq_nil_iff]
    intro station hmem
    obtain ⟨r, rfl⟩ := ended_of_stuck hstuck station hmem
    rfl
  have hrecorded := hk.recorded
  rw [hnone, List.append_nil] at hrecorded
  exact hrecorded.symm

/-- A worker has ended early just when it has taken a response with a
fault. -/
theorem ended_iff (hk : s.Kept responses) (hstuck : s.pool.Stuck provider) {fault : Fault} :
    s.pool.workers[i]? = some (.ended (.error fault)) ↔
      ∃ r, (i, r) ∈ s.taken ∧ r.fault? = some fault := by
  have hworker : s.pool.workers[i]? = s.stations[i]?.map worker := List.getElem?_map
  simp only [Response.fault?_eq_some_iff]
  constructor
  · intro h
    obtain ⟨station, hi, hstation⟩ := Option.map_eq_some_iff.mp (hworker ▸ h)
    obtain ⟨r, rfl⟩ := exists_ended_of_stuck hstuck hi
    obtain ⟨_, before, hown, _⟩ := hk.stands hi
    have hmem : r ∈ takenBy s.taken i := by
      rw [hown]
      exact List.mem_append_right _ (List.mem_singleton_self r)
    exact ⟨r, mem_takenBy.mp hmem, Worker.ended.inj hstation⟩
  · rintro ⟨r, hmem, hfault⟩
    obtain ⟨before, last, hi, hown, _, hbefore⟩ := hk.exists_last hstuck (hk.takers _ hmem)
    have hin := mem_takenBy.mpr hmem
    rw [hown, List.mem_append, List.mem_singleton] at hin
    rcases hin with hold | rfl
    · rw [Response.outcome_of_not_isTerminal (hbefore r hold)] at hfault
      cases hfault
    · rw [hworker, hi, Option.map_some, worker, hfault]

theorem result_eq_ok_iff (hk : s.Kept responses) (hstuck : s.pool.Stuck provider) :
    s.pool.result = .ok () ↔ ∀ i r, (i, r) ∈ s.taken → r.fault? = none := by
  rw [Pool.result_eq_ok_iff]
  constructor
  · intro h i r hmem
    cases hfault : r.fault? with
    | none => rfl
    | some fault => exact absurd ((hk.ended_iff hstuck).mpr ⟨r, hmem, hfault⟩) (h i fault)
  · intro h i fault hw
    obtain ⟨r, hmem, hfault⟩ := (hk.ended_iff hstuck).mp hw
    rw [h i r hmem] at hfault
    cases hfault

theorem result_eq_error_iff (hk : s.Kept responses) (hstuck : s.pool.Stuck provider) {e : Error} :
    s.pool.result = .error e ↔ ∃ i r fault, (i, r) ∈ s.taken ∧ r.fault? = some fault ∧
      e = Pool.faultError i fault ∧
        ∀ j r', (j, r') ∈ s.taken → r'.fault?.isSome → i ≤ j := by
  rw [Pool.result_eq_error_iff]
  constructor
  · rintro ⟨i, fault, hw, he, hmin⟩
    obtain ⟨r, hmem, hfault⟩ := (hk.ended_iff hstuck).mp hw
    refine ⟨i, r, fault, hmem, hfault, he, fun j r' hmem' hsome => ?_⟩
    obtain ⟨fault', hfault'⟩ := Option.isSome_iff_exists.mp hsome
    exact hmin j fault' ((hk.ended_iff hstuck).mpr ⟨r', hmem', hfault'⟩)
  · rintro ⟨i, r, fault, hmem, hfault, he, hmin⟩
    refine ⟨i, fault, (hk.ended_iff hstuck).mpr ⟨r, hmem, hfault⟩, he, fun j fault' hw => ?_⟩
    obtain ⟨r', hmem', hfault'⟩ := (hk.ended_iff hstuck).mp hw
    exact hmin j r' hmem' (by rw [hfault']; rfl)

end Kept

end Shift

/-! ## The whole run -/

namespace Queue

open Shift

/-- What a pool of `count` workers takes from a queue, whatever the schedule.
It is the shortest beginning of the queue that ends every worker.  The work
in it that succeeds is recorded once each, and the run fails just when the
beginning holds a fault, with that of the first worker that met one. -/
theorem run_takes_least (schedule : List Nat) (count : Nat) (responses : List Response) :
    let pool := run schedule count responses
    let first := Pool.start provider count (ofList responses)
    let steps := course schedule count responses
    let taken := takings first steps
    (schedule <+: steps ∧ pool = first.follow provider steps ∧ pool.isFinished = true) ∧
    IsLeast {n | (served responses n).countP (·.isTerminal) = count} taken.length ∧
    taken.map (·.2) = served responses taken.length ∧
    pool.shared.requests = taken.length ∧
    (∀ i r, (i, r) ∈ taken → i < count) ∧
    (∀ i < count, ∃ before last, takenBy taken i = before ++ [last] ∧
      last.isTerminal = true ∧ ∀ r ∈ before, r.isTerminal = false) ∧
    pool.shared.succeeded.Perm (taken.filterMap (·.2.name?)) ∧
    (pool.result = .ok () ↔ ∀ i r, (i, r) ∈ taken → r.fault? = none) ∧
    ∀ e, pool.result = .error e ↔ ∃ i r fault, (i, r) ∈ taken ∧ r.fault? = some fault ∧
      e = Pool.faultError i fault ∧ ∀ j r', (j, r') ∈ taken → r'.fault?.isSome → i ≤ j := by
  obtain ⟨s, hpool, hk, hcount, hstuck, htaken⟩ := exists_shift schedule count responses
  intro pool first steps taken
  rw [← show s.pool = pool from hpool, ← show s.taken = taken from htaken, ← hcount]
  have hsteps : s.pool = first.follow provider steps := hpool.trans (run_eq_follow ..)
  refine ⟨⟨List.prefix_append .., hsteps, isFinished_of_stuck hstuck⟩, hk.isLeast hstuck,
    hk.order, hk.requests, fun i r => hk.takers (i, r), fun i hi => ?_, hk.succeeded_perm hstuck,
    hk.result_eq_ok_iff hstuck, fun e => hk.result_eq_error_iff hstuck⟩
  obtain ⟨before, last, _, hlast⟩ := hk.exists_last hstuck hi
  exact ⟨before, last, hlast⟩

/-- Work of all kinds for two workers; nobody gets as far as `"c"`. -/
def mixed : List Response :=
  [.succeed "a" 0, .crash 1, .succeed "b" 0, .fail (.config "no") 0, .succeed "c" 0]

theorem run_mixed :
    (run [1, 0] 2 mixed).shared.requests = 4 ∧
      (run [1, 0] 2 mixed).shared.succeeded.Perm ["a", "b"] := by
  obtain ⟨_, hleast, horder, hrequests, _, _, hsucceeded, _, _⟩ := run_takes_least [1, 0] 2 mixed
  have hfour : IsLeast {n | (served mixed n).countP (·.isTerminal) = 2} 4 := by
    refine ⟨by decide, fun n hn => ?_⟩
    by_contra hlt
    have hsmall : ∀ n < 4, (served mixed n).countP (·.isTerminal) ≠ 2 := by decide
    exact hsmall n (Nat.lt_of_not_le hlt) hn
  have hlength := hleast.unique hfour
  rw [hlength] at hrequests horder
  refine ⟨hrequests, hsucceeded.trans ?_⟩
  have hnames := congrArg (List.filterMap Response.name?) horder
  rw [List.filterMap_map] at hnames
  exact .of_eq hnames

end Queue

end Cascade
