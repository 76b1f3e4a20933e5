import MyWireshark.Queue.Model

/-! What holds of a PacketQueue in every state its threads can bring it to: nothing is lost,
duplicated or reordered. -/
namespace MyWireshark.Queue
open Transition Monitor

section
variable {ι : Type} {maxSize : Nat} {log : List (ι × Op × Result)} {q : PacketQueue}

structure QueueInv (maxSize : Nat) (log : List (ι × Op × Result)) (q : PacketQueue) : Prop where
  size : q.maxSize = maxSize
  bound : q.queue.length ≤ maxSize
  fifo : handedOut log ++ q.queue = enqueued log
  closed : ∀ e ∈ log, e.2.1 = .close → q.closed = true
  drained : ∀ e ∈ log, e.2.2 = .popped none → q.closed = true ∧ q.queue = []
  sealed : ∀ before i result after, log = before ++ (i, .close, result) :: after →
    enqueued after = []
  ended : ∀ before i op after, log = before ++ (i, op, .popped none) :: after →
    ∀ e ∈ after, e.2.1 = .pop → e.2.2 = .popped none

theorem split_snoc {α : Type} {l before after : List α} {x e : α}
    (h : l ++ [x] = before ++ e :: after) :
    (before = l ∧ e = x ∧ after = []) ∨
      ∃ after', after = after' ++ [x] ∧ l = before ++ e :: after' := by
  cases List.eq_nil_or_concat after with
  | inl hnil =>
    subst hnil
    obtain ⟨hl, hx⟩ := List.append_inj' h rfl
    exact .inl ⟨hl.symm, (List.singleton_inj.mp hx).symm, rfl⟩
  | inr hconcat =>
    obtain ⟨after', y, rfl⟩ := hconcat
    have h' : l ++ [x] = (before ++ e :: after') ++ [y] := by simpa using h
    obtain ⟨hl, hx⟩ := List.append_inj' h' rfl
    exact .inr ⟨after', by rw [List.singleton_inj.mp hx, List.concat_eq_append], hl⟩

theorem queueInv_initial : QueueInv maxSize ([] : List (ι × Op × Result)) (emptyQueue maxSize) where
  size := rfl
  bound := Nat.zero_le _
  fifo := rfl
  closed := by simp
  drained := by simp
  sealed := by simp
  ended := by simp

theorem enqueued_append (l l' : List (ι × Op × Result)) :
    enqueued (l ++ l') = enqueued l ++ enqueued l' := List.filterMap_append

theorem handedOut_append (l l' : List (ι × Op × Result)) :
    handedOut (l ++ l') = handedOut l ++ handedOut l' := List.filterMap_append

/-- What one more critical section `x` has to respect. -/
theorem QueueInv.snoc (hinv : QueueInv maxSize log q) {x : ι × Op × Result} {q' : PacketQueue}
    (hsize : q'.maxSize = q.maxSize) (hbound : q'.queue.length ≤ maxSize)
    (hfifo : handedOut log ++ (handedOut [x] ++ q'.queue) =
      handedOut log ++ (q.queue ++ enqueued [x]))
    (hclose : q.closed = true ∨ x.2.1 = .close → q'.closed = true)
    (hdrain : (q.closed = true ∧ q.queue = []) ∨ x.2.2 = .popped none →
      q'.closed = true ∧ q'.queue = [])
    (hseal : q.closed = true → enqueued [x] = [])
    (hover : q.queue = [] → x.2.1 = .pop → x.2.2 = .popped none) :
    QueueInv maxSize (log ++ [x]) q' where
  size := hsize.trans hinv.size
  bound := hbound
  fifo := by
    rw [handedOut_append, enqueued_append, ← hinv.fifo, List.append_assoc, List.append_assoc, hfifo]
  closed e he hop := by
    cases List.mem_append.mp he with
    | inl hold => exact hclose (.inl (hinv.closed e hold hop))
    | inr hnew => exact hclose (.inr (List.mem_singleton.mp hnew ▸ hop))
  drained e he hres := by
    cases List.mem_append.mp he with
    | inl hold => exact hdrain (.inl (hinv.drained e hold hres))
    | inr hnew => exact hdrain (.inr (List.mem_singleton.mp hnew ▸ hres))
  sealed before i result after h := by
    obtain ⟨-, -, rfl⟩ | ⟨after', rfl, hl⟩ := split_snoc h
    · rfl
    · have hc := hinv.closed (i, .close, result) (by simp [hl]) rfl
      rw [enqueued_append, hinv.sealed _ _ _ _ hl, hseal hc]
      rfl
  ended before i op after h e he hpop := by
    obtain ⟨-, -, rfl⟩ | ⟨after', rfl, hl⟩ := split_snoc h
    · cases he
    · have hd := hinv.drained (i, op, .popped none) (by simp [hl]) rfl
      cases List.mem_append.mp he with
      | inl hold => exact hinv.ended _ _ _ _ hl e hold hpop
      | inr hnew =>
        obtain rfl := List.mem_singleton.mp hnew
        exact hover hd.2 hpop

theorem QueueInv.section (hinv : QueueInv maxSize log q) {i : ι} {op : Op} {q' : PacketQueue}
    {wakes : List (Wake Cond)} {result : Result} (h : enter op q = .done q' wakes result) :
    QueueInv maxSize (log ++ [(i, op, result)]) q' := by
  have hbound := hinv.bound
  have hsize := hinv.size
  cases does_of_enter h with
  | refuse hclosed =>
    exact hinv.snoc rfl hbound (by simp [handedOut, enqueued]) (by simp) (by simp)
      (fun _ => rfl) (by simp)
  | enqueue hopen hroom =>
    refine hinv.snoc rfl ?_ (by simp [handedOut, enqueued]) (by simp) (by simp [hopen])
      (by simp [hopen]) (by simp)
    simp only [List.length_append, List.length_singleton]
    omega
  | drained hempty hclosed =>
    exact hinv.snoc rfl hbound (by simp [handedOut, enqueued]) (by simp)
      (by simp [hclosed, hempty]) (fun _ => rfl) (by simp)
  | dequeue hqueue =>
    refine hinv.snoc rfl ?_ (by simp [handedOut, enqueued, hqueue]) (by simp) (by simp [hqueue])
      (fun _ => rfl) (by simp [hqueue])
    simp only [hqueue, List.length_cons] at hbound
    simp only
    omega
  | close =>
    exact hinv.snoc rfl hbound (by simp [handedOut, enqueued]) (by simp) (by simp)
      (fun _ => rfl) (by simp)

variable [DecidableEq ι] {s t : State ι Op PacketQueue Cond Result}

theorem queueInv_of_reachable (h : (queueSystem ι maxSize).Reachable s) :
    QueueInv maxSize s.log s.data :=
  Reachable.sections h queueInv_initial fun _ _ _ _ _ _ _ hinv hsec => hinv.section hsec

theorem drained_stable (h : (queueSystem ι maxSize).Reaches s t)
    (hs : s.data.closed = true ∧ s.data.queue = []) :
    t.data.closed = true ∧ t.data.queue = [] := by
  refine h.stable (P := fun s => s.data.closed = true ∧ s.data.queue = []) hs ?_
  intro s t hs hst
  obtain ⟨hd, -⟩ | ⟨i, op, q', wakes, result, hsec, hd, -⟩ := Step.sections hst
  · rwa [hd]
  · rw [hd]
    cases does_of_enter hsec with
    | refuse | drained => exact hs
    | enqueue hopen =>
      rw [hs.1] at hopen
      cases hopen
    | dequeue hqueue =>
      rw [hs.2] at hqueue
      cases hqueue
    | close => exact ⟨rfl, hs.2⟩

/-- In every reachable state the queue is within its bound, what was handed out followed by
what is queued is what was put in, nothing was put in after close, and a pop that returns
false, or has returned it, leaves a closed and empty queue on which every later pop returns
false. -/
theorem queue_loses_nothing (h : (queueSystem ι maxSize).Reachable s) :
    s.data.queue.length ≤ maxSize ∧
    handedOut s.log ++ s.data.queue = enqueued s.log ∧
    (∀ before i result after, s.log = before ++ (i, .close, result) :: after →
      enqueued after = []) ∧
    (∀ before i op after, s.log = before ++ (i, op, .popped none) :: after →
      ∀ e ∈ after, e.2.1 = .pop → e.2.2 = .popped none) ∧
    ∀ i, (s.pc i).result = some (.popped none) →
      (s.data.closed = true ∧ s.data.queue = []) ∧
      ∀ t, (queueSystem ι maxSize).Reaches s t →
        enter .pop t.data = .done t.data [] (.popped none) := by
  have hinv := queueInv_of_reachable h
  refine ⟨hinv.bound, hinv.fifo, hinv.sealed, hinv.ended, ?_⟩
  intro i hi
  obtain ⟨op, hop⟩ := Reachable.logged h i _ hi
  have hdrained := hinv.drained _ hop rfl
  refine ⟨hdrained, fun t ht => ?_⟩
  obtain ⟨hc, hq⟩ := drained_stable ht hdrained
  simp [enter, PacketQueue.pop, hc, hq]

end

/-- One thread pushes two frames, of which the second has to wait for a pop of the other thread, and
closes the queue. -/
theorem queue_loses_nothing_pushed : ∃ s, (queueSystem Bool 1).Reachable s ∧
    s.log.map (fun e => (e.1, e.2.1)) = [(true, .push ⟨[0x42], 7, 8⟩), (false, .pop),
      (true, .push ⟨[0x43], 7, 9⟩), (true, .close)] ∧
    handedOut s.log = [⟨[0x42], 7, 8⟩] ∧ s.data.queue = [⟨[0x43], 7, 9⟩] ∧
    s.data.queue.length ≤ 1 ∧ handedOut s.log ++ s.data.queue = enqueued s.log := by
  have hstart : (queueSystem Bool 1).Reachable (initial (emptyQueue 1)) := .init rfl
  have hpushed := (((((hstart.step (.call true (.push ⟨[0x42], 7, 8⟩) (.call rfl))).step
    (.run true (.acquire rfl rfl))).step (.run true (.act rfl rfl))).step
    (.run true (.unlock rfl))).step
    (.run true (.wakeNone rfl fun j op => by cases j <;> intro h <;> cases h))).step
    (.run true (.ret rfl))
  have hfull := ((hpushed.step (.call true (.push ⟨[0x43], 7, 9⟩) (.call rfl))).step
    (.run true (.acquire rfl rfl))).step (.run true (.wait rfl rfl))
  have hpopped := ((((hfull.step (.call false .pop (.call rfl))).step
    (.run false (.acquire rfl rfl))).step (.run false (.act rfl rfl))).step
    (.run false (.unlock rfl))).step (.run false (.wakeOne (j := true) rfl rfl))
  have hsecond := ((((hpopped.step (.run true (.acquire rfl rfl))).step
    (.run true (.act rfl rfl))).step (.run true (.unlock rfl))).step
    (.run true (.wakeNone rfl fun j op => by cases j <;> intro h <;> cases h))).step
    (.run true (.ret rfl))
  have hclosed := ((hsecond.step (.call true .close (.call rfl))).step
    (.run true (.acquire rfl rfl))).step (.run true (.act rfl rfl))
  obtain ⟨hbound, hfifo, -⟩ := queue_loses_nothing hclosed
  exact ⟨_, hclosed, rfl, rfl, rfl, hbound, hfifo⟩

end MyWireshark.Queue
