import Folo.Linked.Runtime
import Mathlib.Algebra.Order.BigOperators.Group.List
import Mathlib.Algebra.Order.Ring.Nat

/-!
# The `linked_std_box` example

Model of `crates/linked/examples/linked_std_box.rs`: `THREAD_COUNT` worker threads each take
an `EventCounter` from the static `RECORDS_PROCESSED`, increment it `RECORDS_PER_THREAD` times,
and hand it, boxed as a `dyn CountResult`, to `finalize_counter_processing`, which reports its
local and global counts; after joining them, `main` reads the global count once more.

The program runs as an interleaving of the workers' steps: the scheduler picks a worker, and
that worker takes one step. A step is one call of `RECORDS_PROCESSED.get()`, one `increment`,
or the final report. Atomics are sequentially consistent here; on one location the relaxed
`fetch_add`s of the source are totally ordered all the same, and the values a report can read
are the same. Each counter's own fields are touched by its worker only. `usize` has `w` bits,
and nothing bounds the number of increments: `fetch_add` wraps and `saturating_add` saturates.

`RECORDS_PROCESSED` is a `linked::instances!` static, which is modelled from the spec (§4.2):
its first use runs the initializer `EventCounter::new()` exactly once, behind a barrier, and
keeps the family of what it returned; every use produces a new instance of that family.

* `run_sharedCount`: in every interleaving the shared counter holds the increments made so far,
  wrapped to `usize`, and there is one family and one shared counter at most.
* `run_reportedCounts`: the step in which a worker reports shows its `R` increments, saturated,
  and the increments all workers have made at that moment, wrapped.
* `run_lastReport`: once all workers have finished, one report shows the full count.
* `run_finalCount`: under a fair schedule every worker finishes and `main` prints `n * R`, wrapped.

Rust → Lean naming: `EventCounter::{new, increment}` → `EventCounter.{new, increment}`;
`RECORDS_PROCESSED.get()` → `get`; `finalize_counter_processing` → the `finished` state.
-/

namespace Folo.Linked.StdBox

/-- The atomic cells (`Arc<AtomicUsize>`) allocated so far, by index: the state that the
counters of a family share. -/
abbrev Cells := List Nat

/-- The own fields of `EventCounter`: `local_count: usize`, and `global_count`, the index of
its `Arc<AtomicUsize>`. -/
structure EventCounter where
  localCount : Nat
  globalCount : Nat
  deriving DecidableEq, Repr

variable (w : Nat)

/-- `usize::saturating_add`. -/
def saturatingAdd (a b : Nat) : Nat := min (a + b) (2 ^ w - 1)

/-- The new value of `AtomicUsize::fetch_add`, which wraps. -/
def wrappingAdd (a b : Nat) : Nat := (a + b) % 2 ^ w

namespace EventCounter

/-- Allocates the shared counter, then `linked::new!` creates the family whose recipe builds a
counter at zero on that shared counter, and returns its first instance (`EventCounter::new`). -/
def new (rt : Runtime Cells EventCounter) : Runtime Cells EventCounter × Instance EventCounter :=
  let globalCount := rt.shared.length
  Runtime.new ⟨rt.shared ++ [0], rt.families⟩ fun cells => (cells, ⟨0, globalCount⟩)

/-- `EventCounter::increment`: the local count saturates, the shared one wraps. -/
def increment (cells : Cells) (c : Instance EventCounter) : Cells × Instance EventCounter :=
  (cells.modify (wrappingAdd w · 1) c.fields.globalCount,
    ⟨⟨saturatingAdd w c.fields.localCount 1, c.fields.globalCount⟩, c.link⟩)

end EventCounter

/-- `dyn CountResult`: all that a boxed counter lets its holder do is read the local count and
load the global one. -/
structure CountResult where
  localCount : Nat
  globalCount : Cells → Nat

/-- `Box::new(counter)` as a `Box<dyn CountResult>` (`impl CountResult for EventCounter`). -/
def EventCounter.toCountResult (c : Instance EventCounter) : CountResult :=
  ⟨c.fields.localCount, fun cells => cells.getD c.fields.globalCount 0⟩

/-- Modelled from the spec: `RECORDS_PROCESSED.get()` of a `linked::instances!` static whose
once-cell is `records`. The first use runs the initializer and keeps the family of the instance
it returned; then a new instance of the family is produced. -/
def get (rt : Runtime Cells EventCounter) (records : Option FamilyId) :
    Option (Runtime Cells EventCounter × FamilyId × Instance EventCounter) :=
  let (rt, f) := match records with
    | some f => (rt, f)
    | none => let (rt, first) := EventCounter.new rt; (rt, first.link)
  (rt.produce f).map fun r => (r.1, f, r.2)

/-- Where a worker thread is: before `RECORDS_PROCESSED.get()`, in the loop with its counter
after `done` increments, or past `finalize_counter_processing`, which reported these counts. -/
inductive Worker
  | spawned
  | counting (counter : Instance EventCounter) (done : Nat)
  | finished (localCount globalCount : Nat)
  deriving DecidableEq

/-- The state of the program: the runtime, the once-cell of `RECORDS_PROCESSED`, the workers. -/
structure World where
  rt : Runtime Cells EventCounter
  records : Option FamilyId
  workers : List Worker

/-- `THREAD_COUNT` workers spawned, nothing else yet. -/
def World.init (n : Nat) : World := ⟨⟨[], []⟩, none, List.replicate n .spawned⟩

variable (R : Nat)

/-- Worker `k` takes one step of its thread body, which makes `R` increments
(`RECORDS_PER_THREAD`); any other worker, and a worker that is done, stays as it is. -/
def step (s : World) (k : Nat) : World :=
  match s.workers[k]? with
  | some .spawned =>
    match get s.rt s.records with
    | some (rt, f, counter) => ⟨rt, some f, s.workers.set k (.counting counter 0)⟩
    | none => s
  | some (.counting counter done) =>
    if done < R then
      let (cells, counter) := EventCounter.increment w s.rt.shared counter
      ⟨⟨cells, s.rt.families⟩, s.records, s.workers.set k (.counting counter (done + 1))⟩
    else
      let result := EventCounter.toCountResult counter
      ⟨s.rt, s.records, s.workers.set k (.finished result.localCount (result.globalCount s.rt.shared))⟩
  | _ => s

/-- The workers take steps in the order the scheduler picks them. -/
def run (s : World) (schedule : List Nat) : World := schedule.foldl (step w R) s

/-- Whether a worker's thread has ended, so that `join` returns. -/
def Worker.isFinished : Worker → Bool
  | .finished .. => true
  | _ => false

/-- What `main` prints after joining every worker, `RECORDS_PROCESSED.get().global_count()`;
`none` while a worker is still running. -/
def World.finalCount (s : World) : Option Nat :=
  if s.workers.all (·.isFinished) then
    (get s.rt s.records).map fun r => (EventCounter.toCountResult r.2.2).globalCount r.1.shared
  else none

/-- How many increments a worker has made. -/
def Worker.done : Worker → Nat
  | .spawned => 0
  | .counting _ done => done
  | .finished .. => R

/-- The increments made by all workers so far. -/
def World.total (s : World) : Nat := (s.workers.map (Worker.done R)).sum

/-- The recipe of the one family `RECORDS_PROCESSED` creates: a counter at zero on cell 0. -/
def recipe : Constructor Cells EventCounter := fun cells => (cells, ⟨0, 0⟩)

/-- A worker as it can be: not started; counting on an instance of family 0 whose local count is
the number of increments made, saturated at `usize::MAX`; or done, having reported its `R`
increments, saturated, and the global count as it stood at some point between `R` and `n * R`
increments, wrapped to `usize`. -/
inductive WorkerOk (n : Nat) : Worker → Prop
  | spawned : WorkerOk n .spawned
  | counting {done l : Nat} (h : done ≤ R) (hl : l = min done (2 ^ w - 1)) :
    WorkerOk n (.counting ⟨⟨l, 0⟩, 0⟩ done)
  | finished {l t : Nat} (hl : l = min R (2 ^ w - 1)) (h₁ : R ≤ t) (h₂ : t ≤ n * R) :
    WorkerOk n (.finished l (t % 2 ^ w))

/-- The invariant of the program with `n` workers: every worker is `WorkerOk`; before the first
`get` there is no family and no cell, and no worker has started; after it there is exactly one
family, with `recipe`, and one cell, which holds the number of increments made, wrapped to
`usize`; and once every worker has finished, one of them has reported that number. -/
structure Inv (n : Nat) (s : World) : Prop where
  length : s.workers.length = n
  workers : ∀ x ∈ s.workers, WorkerOk w R n x
  state : (s.records = none ∧ s.rt = ⟨[], []⟩ ∧ ∀ x ∈ s.workers, x = .spawned) ∨
    (s.records = some 0 ∧ s.rt = ⟨[s.total R % 2 ^ w], [recipe]⟩)
  complete : 0 < n → (∀ x ∈ s.workers, x.isFinished) →
    Worker.finished (min R (2 ^ w - 1)) (s.total R % 2 ^ w) ∈ s.workers

variable {R}

lemma inv_init (n : Nat) : Inv w R n (World.init n) :=
  ⟨List.length_replicate _ _, fun _ hx => (List.eq_of_mem_replicate hx) ▸ .spawned,
    .inl ⟨rfl, rfl, fun _ => List.eq_of_mem_replicate⟩, fun hn hall =>
      absurd (hall .spawned (List.mem_replicate.2 ⟨by omega, rfl⟩)) (by simp [Worker.isFinished])⟩

/-- Replacing one element changes the sum of a measure by the difference of the two. -/
lemma sum_map_set {α : Type} (f : α → Nat) {l : List α} {k : Nat} {y : α} (hk : l[k]? = some y)
    (x : α) : ((l.set k x).map f).sum + f y = (l.map f).sum + f x := by
  induction l generalizing k with
  | nil => simp at hk
  | cons z l ih =>
    cases k with
    | zero => simp at hk; simp [hk]; omega
    | succ k =>
      have := ih (k := k) (by simpa using hk)
      simp only [List.set_cons_succ, List.map_cons, List.sum_cons]
      omega

/-- A worker's increments are part of the total. -/
lemma done_le_total {s : World} {k : Nat} {x : Worker} (hk : s.workers[k]? = some x) :
    x.done R ≤ s.total R :=
  List.le_sum_of_mem (List.mem_map_of_mem _ (List.getElem?_mem hk))

/-- Replacing worker `k` by `y` trades its increments for those of `y`. -/
lemma total_set {s : World} {k : Nat} {x : Worker} (hk : s.workers[k]? = some x)
    (rt : Runtime Cells EventCounter) (r : Option FamilyId) (y : Worker) :
    World.total R ⟨rt, r, s.workers.set k y⟩ = s.total R - x.done R + y.done R := by
  have := sum_map_set (Worker.done R) hk y
  have := done_le_total (R := R) hk
  simp only [World.total] at *
  omega

/-- The total is at most `n * R` when every one of the `n` workers is `WorkerOk`. -/
lemma total_le {n : Nat} {ws : List Worker} (hl : ws.length = n)
    (hok : ∀ x ∈ ws, WorkerOk w R n x) : (ws.map (Worker.done R)).sum ≤ n * R := by
  have hle : ∀ d ∈ ws.map (Worker.done R), d ≤ R := by
    simp only [List.mem_map]
    rintro _ ⟨x, hx, rfl⟩
    cases hok x hx <;> simp [Worker.done, *]
  simpa [hl, mul_comm] using List.sum_le_card_nsmul _ R hle

/-- Replacing worker `k` by a `WorkerOk` one keeps every worker `WorkerOk`. -/
lemma workerOk_set {n : Nat} {ws : List Worker} (hok : ∀ x ∈ ws, WorkerOk w R n x) {x : Worker}
    (hx : WorkerOk w R n x) (k : Nat) : ∀ z ∈ ws.set k x, WorkerOk w R n z :=
  fun z hz => (List.mem_or_eq_of_mem_set hz).elim (hok z) (· ▸ hx)

/-- The first `get` runs `EventCounter::new()`: one cell at zero, one family with `recipe`. -/
lemma get_init : get ⟨[], []⟩ none = some (⟨[0], [recipe]⟩, 0, ⟨⟨0, 0⟩, 0⟩) := rfl

/-- Every later `get` produces a counter at zero on cell 0 and changes nothing. -/
lemma get_records (t : Nat) :
    get ⟨[t], [recipe]⟩ (some 0) = some (⟨[t], [recipe]⟩, 0, ⟨⟨0, 0⟩, 0⟩) := rfl

/-- `EventCounter::increment` on cell 0: the cell wraps, the local count saturates. -/
lemma increment_eq (t l : Nat) :
    EventCounter.increment w [t] ⟨⟨l, 0⟩, 0⟩ =
      ([(t + 1) % 2 ^ w], ⟨⟨min (l + 1) (2 ^ w - 1), 0⟩, 0⟩) := rfl

variable {n : Nat} {s : World} {k : Nat}

/-- A worker that has not started calls `get` and starts counting on what it returned. -/
lemma step_spawned (hk : s.workers[k]? = some .spawned) {rt : Runtime Cells EventCounter}
    {f : FamilyId} {c : Instance EventCounter} (hg : get s.rt s.records = some (rt, f, c)) :
    step w R s k = ⟨rt, some f, s.workers.set k (.counting c 0)⟩ := by
  simp [step, hk, hg]

/-- A counting worker below `R` increments its counter. -/
lemma step_counting_lt {c : Instance EventCounter} {d : Nat}
    (hk : s.workers[k]? = some (.counting c d)) (hd : d < R) :
    step w R s k = ⟨⟨(EventCounter.increment w s.rt.shared c).1, s.rt.families⟩, s.records,
      s.workers.set k (.counting (EventCounter.increment w s.rt.shared c).2 (d + 1))⟩ := by
  simp [step, hk, hd]

/-- A counting worker at `R` reports its local count and the loaded global count. -/
lemma step_counting_ge {c : Instance EventCounter} {d : Nat}
    (hk : s.workers[k]? = some (.counting c d)) (hd : ¬ d < R) :
    step w R s k = ⟨s.rt, s.records, s.workers.set k
      (.finished c.fields.localCount (s.rt.shared.getD c.fields.globalCount 0))⟩ := by
  simp [step, hk, hd, EventCounter.toCountResult]

/-- A finished worker, or one that does not exist, takes no step. -/
lemma step_idle (hk : ∀ a b, s.workers[k]? ≠ some .spawned ∧ s.workers[k]? ≠ some (.counting a b)) :
    step w R s k = s := by
  unfold step
  split
  · exact absurd ‹_› (hk ⟨⟨0, 0⟩, 0⟩ 0).1
  · exact absurd ‹_› (hk _ _).2
  · rfl

/-- A step of worker `k` after which it shows a report it did not show before is its report: it
was counting with at least `R` increments made, and reports its counter's local count and the
global count loaded from the counter's cell. -/
lemma report_step {l g : Nat} (hbefore : s.workers[k]? ≠ some (.finished l g))
    (hafter : (step w R s k).workers[k]? = some (.finished l g)) :
    ∃ d c, s.workers[k]? = some (.counting c d) ∧ ¬ d < R ∧
      l = c.fields.localCount ∧ g = s.rt.shared.getD c.fields.globalCount 0 := by
  cases hk : s.workers[k]? with
  | none => rw [step_idle w (by simp [hk]), hk] at hafter; cases hafter
  | some x =>
    have hkl : k < s.workers.length := (List.getElem?_eq_some_iff.1 hk).1
    cases x with
    | spawned =>
      cases hg : get s.rt s.records with
      | none => simp [step, hk, hg] at hafter
      | some r => simp [step_spawned w hk hg, List.getElem?_set_self hkl] at hafter
    | counting c d =>
      by_cases hd : d < R
      · simp [step_counting_lt w hk hd, List.getElem?_set_self hkl] at hafter
      · simp only [step_counting_ge w hk hd, List.getElem?_set_self hkl, Option.some.injEq,
          Worker.finished.injEq] at hafter
        exact ⟨d, c, rfl, hd, hafter.1.symm, hafter.2.symm⟩
    | finished =>
      rw [step_idle w (by simp [hk]), hk] at hafter
      exact absurd (hk ▸ hafter) hbefore

/-- One step of any worker keeps the invariant, whatever the width of `usize`. -/
lemma step_inv (h : Inv w R n s) (k : Nat) : Inv w R n (step w R s k) := by
  cases hk : s.workers[k]? with
  | none => rwa [step_idle w (by simp [hk])]
  | some x =>
    have hmem := List.getElem?_mem hk
    have hkl : k < s.workers.length := (List.getElem?_eq_some_iff.1 hk).1
    have hlen : ∀ y, (s.workers.set k y).length = n := fun y => (List.length_set _ _ _).trans h.length
    -- while worker `k` counts, not every worker has finished
    have hcount : ∀ c d, ¬ ∀ z ∈ s.workers.set k (.counting c d), z.isFinished := fun c d hall =>
      absurd (hall _ (List.mem_set _ _ hkl _)) (by simp [Worker.isFinished])
    cases h.workers x hmem with
    | spawned =>
      have hw' := workerOk_set w h.workers (.counting (Nat.zero_le R) (Nat.zero_min _).symm) k
      rcases h.state with ⟨hr, hrt, hall⟩ | ⟨hr, hrt⟩
      · have h0 : s.total R = 0 := List.sum_eq_zero fun d hd => by
          obtain ⟨x, hx, rfl⟩ := List.mem_map.1 hd
          rw [hall x hx]
          rfl
        rw [step_spawned w hk (by rw [hr, hrt]; exact get_init)]
        refine ⟨hlen _, hw', .inr ⟨rfl, ?_⟩, fun _ hall => absurd hall (hcount _ _)⟩
        simp [total_set hk, Worker.done, h0]
      · rw [step_spawned w hk (by rw [hr, hrt]; exact get_records _)]
        refine ⟨hlen _, hw', .inr ⟨rfl, ?_⟩, fun _ hall => absurd hall (hcount _ _)⟩
        simp [total_set hk, Worker.done]
    | @counting d l hd hl =>
      obtain ⟨hr, hrt⟩ := h.state.resolve_left fun ⟨_, _, hall⟩ => nomatch hall _ hmem
      have hdt := done_le_total (R := R) hk
      by_cases hlt : d < R
      · have hw' := workerOk_set w h.workers
          (.counting (l := min (l + 1) (2 ^ w - 1)) (show d + 1 ≤ R from hlt) (by omega)) k
        rw [step_counting_lt w hk hlt, hrt, increment_eq]
        refine ⟨hlen _, hw', .inr ⟨hr, ?_⟩, fun _ hall => absurd hall (hcount _ _)⟩
        simp only [Worker.done] at hdt
        rw [total_set hk, Nat.mod_add_mod]
        simp only [Worker.done, show s.total R - d + (d + 1) = s.total R + 1 by omega]
      · obtain rfl : R = d := by omega
        have hge : R ≤ s.total R := hdt
        rw [step_counting_ge w hk hlt, hrt]
        simp only [List.getD_cons_zero]
        have htot : World.total R ⟨⟨[s.total R % 2 ^ w], [recipe]⟩, s.records,
            s.workers.set k (.finished l (s.total R % 2 ^ w))⟩ = s.total R := by
          rw [total_set hk]
          exact Nat.sub_add_cancel hge
        refine ⟨hlen _, workerOk_set w h.workers (.finished hl hge (total_le w h.length h.workers)) k,
          .inr ⟨hr, by rw [htot]⟩, fun _ _ => ?_⟩
        rw [htot, ← hl]
        exact List.mem_set _ _ hkl _
    | finished => rwa [step_idle w (by simp [hk])]

/-- Every interleaving of the workers keeps the invariant. -/
lemma run_inv (h : Inv w R n s) (schedule : List Nat) : Inv w R n (run w R s schedule) := by
  induction schedule generalizing s with
  | nil => exact h
  | cons k ks ih => exact ih (step_inv w h k)

lemma run_append_singleton (schedule : List Nat) (k : Nat) :
    run w R s (schedule ++ [k]) = step w R (run w R s schedule) k :=
  List.foldl_append _ _ _ _

variable (R) in
/-- How far a worker has got: `get` is one step, each increment one, the report one. -/
def Worker.progress : Worker → Nat
  | .spawned => 0
  | .counting _ done => done + 1
  | .finished .. => R + 2

variable (R) in
/-- How far worker `j` has got. -/
def World.progress (s : World) (j : Nat) : Nat := (s.workers[j]?.map (Worker.progress R)).getD 0

/-- A worker gets at most `R + 2` steps far, and only a finished one gets that far. -/
lemma WorkerOk.progress_le {x : Worker} (hx : WorkerOk w R n x) :
    x.progress R ≤ R + 2 ∧ (x.progress R = R + 2 → x.isFinished) := by
  cases hx with
  | counting hd _ => simp only [Worker.progress, Worker.isFinished]; omega
  | _ => simp [Worker.progress, Worker.isFinished]

/-- A step of worker `k` takes it one step further, up to `R + 2`, and no other worker moves. -/
lemma step_progress (h : Inv w R n s) {j : Nat} (hj : j < n) (k : Nat) :
    (step w R s k).progress R j = if k = j then min (s.progress R j + 1) (R + 2)
      else s.progress R j := by
  have hset : ∀ rt r y, (World.progress R ⟨rt, r, s.workers.set k y⟩ j) =
      if k = j then y.progress R else s.progress R j := fun _ _ y => by
    by_cases hkj : k = j <;> simp [World.progress, List.getElem?_set, hkj, h.length, hj]
  cases hk : s.workers[k]? with
  | none =>
    have : k ≠ j := fun e => by simp [e, h.length, hj] at hk
    rw [step_idle (s := s) w (by simp [hk]), if_neg this]
  | some x =>
    have hprog : s.progress R k = x.progress R := by simp [World.progress, hk]
    -- worker `k` moving from `x` to `y` one step further is all that changes
    have hmove : ∀ rt r y, y.progress R = min (x.progress R + 1) (R + 2) →
        World.progress R ⟨rt, r, s.workers.set k y⟩ j =
          if k = j then min (s.progress R j + 1) (R + 2) else s.progress R j := by
      intro rt r y hy
      rw [hset]
      split_ifs with hkj
      · rw [hy, ← hkj, hprog]
      · rfl
    cases h.workers x (List.getElem?_mem hk) with
    | spawned =>
      obtain ⟨rt, f, c, hg⟩ : ∃ rt f c, get s.rt s.records = some (rt, f, c) := by
        rcases h.state with ⟨hr, hrt, -⟩ | ⟨hr, hrt⟩ <;> simp [hr, hrt, get_init, get_records]
      rw [step_spawned w hk hg]
      exact hmove _ _ _ (by simp only [Worker.progress]; omega)
    | @counting d l hd _ =>
      by_cases hlt : d < R
      · rw [step_counting_lt w hk hlt]
        exact hmove _ _ _ (by simp only [Worker.progress]; omega)
      · rw [step_counting_ge w hk hlt]
        exact hmove _ _ _ (by simp only [Worker.progress]; omega)
    | finished =>
      rw [step_idle w (by simp [hk])]
      split_ifs with hkj
      · rw [← hkj, hprog]
        simp only [Worker.progress]
        omega
      · rfl

/-- No worker gets further than `R + 2`. -/
lemma World.progress_le (h : Inv w R n s) (j : Nat) : s.progress R j ≤ R + 2 := by
  cases hj : s.workers[j]? with
  | none => simp [World.progress, hj]
  | some x => simpa [World.progress, hj] using (WorkerOk.progress_le w (h.workers x (List.getElem?_mem hj))).1

/-- Over a run, worker `j` gets as far as the number of times it is picked, up to `R + 2`. -/
lemma run_progress (h : Inv w R n s) {j : Nat} (hj : j < n)
    (schedule : List Nat) :
    (run w R s schedule).progress R j = min (s.progress R j + schedule.count j) (R + 2) := by
  induction schedule generalizing s with
  | nil => simpa [run] using World.progress_le w h j
  | cons k ks ih =>
    rw [show run w R s (k :: ks) = run w R (step w R s k) ks from rfl, ih (step_inv w h k),
      step_progress w h hj, List.count_cons]
    simp only [beq_iff_eq]
    split_ifs <;> omega

/-- A worker scheduled `R + 2` times from the start has finished. -/
lemma run_isFinished {schedule : List Nat}
    (hfair : ∀ j < n, R + 2 ≤ schedule.count j) :
    ∀ x ∈ (run w R (World.init n) schedule).workers, x.isFinished := by
  have hinv := run_inv w (inv_init (R := R) w n) schedule
  intro x hx
  obtain ⟨j, hj⟩ := List.mem_iff_getElem?.1 hx
  have hjn : j < n := hinv.length ▸ (List.getElem?_eq_some_iff.1 hj).1
  have hp := run_progress w (inv_init (R := R) w n) hjn schedule
  have h0 : (World.init n).progress R j = 0 := by
    simp [World.init, World.progress, List.getElem?_replicate, hjn, Worker.progress]
  have := hfair j hjn
  exact (WorkerOk.progress_le w (hinv.workers x hx)).2 (by simp [World.progress, hj, h0] at hp; omega)

/-- Once every worker has finished, the increments made are `n * R`. -/
lemma total_eq_of_finished (h : Inv w R n s) (hfin : ∀ x ∈ s.workers, x.isFinished) :
    s.total R = n * R := by
  have hdone : ∀ d ∈ s.workers.map (Worker.done R), d = R := by
    simp only [List.mem_map]
    rintro _ ⟨x, hx, rfl⟩
    cases x with
    | finished => rfl
    | _ => exact absurd (hfin _ hx) (by simp [Worker.isFinished])
  simpa [World.total, h.length, mul_comm] using List.sum_eq_card_nsmul _ R hdone

/-- Once every worker has finished, `main` reads the increments made, wrapped to `usize`. -/
lemma finalCount_eq (h : Inv w R n s) (hfin : ∀ x ∈ s.workers, x.isFinished) :
    s.finalCount = some (n * R % 2 ^ w) := by
  have hall : s.workers.all (·.isFinished) := List.all_eq_true.2 hfin
  rcases h.state with ⟨hr, hrt, hsp⟩ | ⟨hr, hrt⟩
  · have hn : n = 0 := by
      rw [← h.length, List.length_eq_zero, List.eq_nil_iff_forall_not_mem]
      exact fun x hx => by simpa [hsp x hx, Worker.isFinished] using hfin x hx
    simp [World.finalCount, hall, hr, hrt, get_init, EventCounter.toCountResult, hn]
  · simp [World.finalCount, hall, hr, hrt, get_records, EventCounter.toCountResult,
      total_eq_of_finished w h hfin]

variable (R n)

/-- In every interleaving of the workers, whatever the width of `usize`, the shared counter holds
the number of increments made so far, wrapped as `fetch_add` wraps: no increment is lost and none
is counted twice. And `RECORDS_PROCESSED` creates one family and one shared counter at most,
however many workers race on its first use. -/
theorem run_sharedCount (schedule : List Nat) :
    ((run w R (World.init n) schedule).records = none ∧
        (run w R (World.init n) schedule).rt = ⟨[], []⟩) ∨
      ((run w R (World.init n) schedule).records = some 0 ∧
        (run w R (World.init n) schedule).rt =
          ⟨[(run w R (World.init n) schedule).total R % 2 ^ w], [recipe]⟩) :=
  (run_inv w (inv_init (R := R) w n) schedule).state.imp (fun h => ⟨h.1, h.2.1⟩) id

/-- In every interleaving, the step in which a worker reports (`finalize_counter_processing`)
shows as its local count the worker's `R` increments, saturated at `usize::MAX`, and as its global
count the number of increments all workers have made at that moment, wrapped to `usize`; that
number is between `R` and `n * R`. -/
theorem run_reportedCounts (schedule : List Nat) (k l g : Nat)
    (hbefore : (run w R (World.init n) schedule).workers[k]? ≠ some (.finished l g))
    (hafter : (run w R (World.init n) (schedule ++ [k])).workers[k]? = some (.finished l g)) :
    l = min R (2 ^ w - 1) ∧ g = (run w R (World.init n) schedule).total R % 2 ^ w ∧
      R ≤ (run w R (World.init n) schedule).total R ∧
      (run w R (World.init n) schedule).total R ≤ n * R := by
  have h := run_inv w (inv_init (R := R) w n) schedule
  rw [run_append_singleton] at hafter
  generalize run w R (World.init n) schedule = s at h hbefore hafter ⊢
  obtain ⟨d, c, hk, hd, rfl, rfl⟩ := report_step w hbefore hafter
  have hdt := done_le_total (R := R) hk
  obtain ⟨-, hrt⟩ := h.state.resolve_left fun ⟨_, _, hall⟩ => nomatch hall _ (List.getElem?_mem hk)
  cases h.workers _ (List.getElem?_mem hk) with
  | counting hd' hl =>
    obtain rfl : d = R := by omega
    exact ⟨hl, by simp [hrt], hdt, total_le w h.length h.workers⟩

theorem run_reportedCounts_twoBitUsize :
    (run 2 5 (World.init 1) (List.replicate 6 0)).workers[0]? ≠ some (.finished 3 1) ∧
      (run 2 5 (World.init 1) (List.replicate 6 0 ++ [0])).workers[0]? = some (.finished 3 1) ∧
      (3 = min 5 (2 ^ 2 - 1) ∧ 1 = (run 2 5 (World.init 1) (List.replicate 6 0)).total 5 % 2 ^ 2 ∧
        5 ≤ (run 2 5 (World.init 1) (List.replicate 6 0)).total 5 ∧
        (run 2 5 (World.init 1) (List.replicate 6 0)).total 5 ≤ 1 * 5) :=
  have hbefore : (run 2 5 (World.init 1) (List.replicate 6 0)).workers[0]? ≠ some (.finished 3 1) := by
    decide
  have hafter : (run 2 5 (World.init 1) (List.replicate 6 0 ++ [0])).workers[0]? =
      some (.finished 3 1) := by
    decide
  ⟨hbefore, hafter, run_reportedCounts 2 5 1 _ 0 3 1 hbefore hafter⟩

/-- In every interleaving in which all `n > 0` workers finish, the one that reports last has seen
every increment: its report shows `n * R`, wrapped to `usize`, the count `main` then prints. -/
theorem run_lastReport (hn : 0 < n) (schedule : List Nat)
    (hfin : ∀ x ∈ (run w R (World.init n) schedule).workers, x.isFinished) :
    Worker.finished (min R (2 ^ w - 1)) (n * R % 2 ^ w) ∈
      (run w R (World.init n) schedule).workers := by
  have hinv := run_inv w (inv_init (R := R) w n) schedule
  rw [← total_eq_of_finished w hinv hfin]
  exact hinv.complete hn hfin

theorem run_lastReport_twoWorkers :
    0 < 2 ∧ (∀ x ∈ (run 64 1 (World.init 2) [0, 1, 0, 0, 1, 1]).workers, x.isFinished) ∧
      Worker.finished (min 1 (2 ^ 64 - 1)) (2 * 1 % 2 ^ 64) ∈
        (run 64 1 (World.init 2) [0, 1, 0, 0, 1, 1]).workers :=
  have hfin : ∀ x ∈ (run 64 1 (World.init 2) [0, 1, 0, 0, 1, 1]).workers, x.isFinished := by
    decide
  ⟨by decide, hfin, run_lastReport 64 1 2 (by decide) _ hfin⟩

/-- Once every worker has been picked `R + 2` times, in whatever interleaving, every worker has
finished, `join` returns, and `main` prints `n * R`, wrapped to `usize`. -/
theorem run_finalCount (schedule : List Nat) (hfair : ∀ j < n, R + 2 ≤ schedule.count j) :
    (run w R (World.init n) schedule).finalCount = some (n * R % 2 ^ w) :=
  finalCount_eq w (run_inv w (inv_init w n) schedule) (run_isFinished w hfair)

/-- `linked_std_box.rs` as written: four threads, a thousand increments each, a 64-bit `usize`,
run one thread after the other; `main` prints 4000. -/
theorem run_finalCount_linkedStdBox :
    (run 64 1000 (World.init 4) (List.replicate 1002 0 ++ List.replicate 1002 1 ++
      List.replicate 1002 2 ++ List.replicate 1002 3)).finalCount = some 4000 :=
  run_finalCount 64 1000 4 _ fun j hj => by
    simp only [List.count_append, List.count_replicate, beq_iff_eq]
    split_ifs <;> omega

end Folo.Linked.StdBox
