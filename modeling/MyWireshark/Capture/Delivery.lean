import MyWireshark.Capture.Reader

/-! What the ring reader guarantees to its caller and to the kernel. -/
namespace MyWireshark.Capture
open Transition RingBuffer

def Pc.reads : Pc → Bool
  | .load _ | .copy _ | .count _ => true
  | _ => false

def Pc.readsPacket : Pc → Bool
  | .copy _ | .count _ => true
  | _ => false

section
variable {s : RingState} {given : List Frame} {pending : List (List Frame)} {c : Nat}

theorem RingInv.copied_first (h : RingInv s given pending c) :
    ∃ taken rest, s.published = taken ++ rest ∧ List.Forall₂ Delivered taken s.copied := by
  obtain ⟨early, late, hcopied, hgiven, hlate⟩ := h.copied
  refine ⟨given ++ (pending.headD []).take c, (pending.headD []).drop c ++ pending.tail.flatten,
    ?_, ?_⟩
  · rw [h.published, List.append_assoc, ← List.append_assoc (List.take _ _), List.take_append_drop]
    cases pending with
    | nil => rfl
    | cons fs rest => rfl
  · rw [hcopied]
    exact List.rel_append hgiven hlate

theorem RingInv.received_first (h : RingInv s given pending c) :
    ∃ taken rest, s.published = taken ++ rest ∧ List.Forall₂ Delivered taken s.received := by
  obtain ⟨taken, rest, hpub, hcopied⟩ := h.copied_first
  refine ⟨taken.take s.received.length, taken.drop s.received.length ++ rest, ?_, ?_⟩
  · rw [← List.append_assoc, List.take_append_drop]
    exact hpub
  · exact List.forall₂_take_append _ _ _ hcopied

theorem RingInv.reads_user (h : RingInv s given pending c) (hpc : s.pc.reads = true) :
    s.bd.user = true := by
  have hplace := h.place
  have hfirst : ∃ fs rest, pending = fs :: rest ∧ s.pc.between = false := by
    cases hp : s.pc with
    | load args =>
      rw [hp] at hplace
      obtain ⟨-, -, fs, rest, hcons⟩ := hplace
      exact ⟨fs, rest, hcons, rfl⟩
    | copy args =>
      rw [hp] at hplace
      obtain ⟨fs, rest, hcons, -⟩ := hplace
      exact ⟨fs, rest, hcons, rfl⟩
    | count got =>
      rw [hp] at hplace
      obtain ⟨fs, rest, i, hcons, -, -⟩ := hplace
      exact ⟨fs, rest, hcons, rfl⟩
    | idle | top | look | poll | skip | skipNext | release | next =>
      rw [hp] at hpc
      cases hpc
  obtain ⟨fs, rest, rfl, hbetween⟩ := hfirst
  exact (h.holds hbetween).published.user

theorem RingInv.reads_inside (h : RingInv s given pending c) (hpc : s.pc.readsPacket = true) :
    s.bd.PacketFits s.ctx.curPktOffset := by
  have hplace := h.place
  cases hp : s.pc with
  | copy args =>
    rw [hp] at hplace
    obtain ⟨fs, rest, -, hat⟩ := hplace
    exact hat.unfold_chain.1
  | count got =>
    rw [hp] at hplace
    obtain ⟨fs, rest, i, -, -, hat⟩ := hplace
    exact hat.unfold_chain.1
  | idle | top | look | poll | load | skip | skipNext | release | next =>
    rw [hp] at hpc
    cases hpc

/-- The two places that give a block back, as all the steps that can take TP_STATUS_USER away. -/
theorem RingStep.gives_back {t : RingState} {k : Nat} (hst : RingStep s t)
    (huser : (s.blocks k).user = true) (hfree : (t.blocks k).user = false) :
    k = s.ctx.curBlock.toNat ∧ ((∃ args, s.pc = .skip args) ∨ ∃ got, s.pc = .release got) := by
  have hsame : t.blocks k ≠ s.blocks k := by
    intro heq
    rw [heq, huser] at hfree
    cases hfree
  cases hst with
  | call args hpc =>
    unfold RingState.rawSocketRecv at hsame
    split at hsame <;> exact absurd rfl hsame
  | stop => exact absurd rfl hsame
  | fill j b hj hb =>
    by_cases hk : k = j
    · rw [hk, hj] at huser
      cases huser
    · exact absurd (Function.update_of_ne hk _ _) hsame
  | publish b hj hb =>
    by_cases hk : k = s.kernelAt
    · rw [hk, hj] at huser
      cases huser
    · exact absurd (Function.update_of_ne hk _ _) hsame
  | recv e =>
    have hcur : ∀ pc, (s.giveBack.goto pc).blocks k ≠ s.blocks k → k = s.ctx.curBlock.toNat :=
      fun pc hne => by_contra fun hk => hne (Function.update_of_ne hk _ _)
    have hmoved := moved_recvStep s e
    generalize s.recvStep e = t at hmoved hsame
    cases hmoved with
    | skipped hpc => exact ⟨hcur _ hsame, .inl ⟨_, hpc⟩⟩
    | released hpc => exact ⟨hcur _ hsame, .inr ⟨_, hpc⟩⟩
    | _ => exact absurd rfl hsame

/-- A block is given back when all its packets have been copied out, and as the last ones. -/
theorem RingInv.gives_back (h : RingInv s given pending c) {t : RingState} {k : Nat}
    (hst : RingStep s t) (huser : (s.blocks k).user = true) (hfree : (t.blocks k).user = false) :
    ∃ early late, s.copied = early ++ late ∧
      List.Forall₂ Delivered (s.blocks k).frames late := by
  obtain ⟨rfl, hpc⟩ := hst.gives_back huser hfree
  have hplace := h.place
  have hdone : ∃ fs rest, pending = fs :: rest ∧ c = fs.length ∧ s.pc.between = false := by
    cases hpc with
    | inl hpc =>
      obtain ⟨args, hpc⟩ := hpc
      rw [hpc] at hplace ⊢
      obtain ⟨hc, -, rest, hcons⟩ := hplace
      exact ⟨[], rest, hcons, hc, rfl⟩
    | inr hpc =>
      obtain ⟨got, hpc⟩ := hpc
      rw [hpc] at hplace ⊢
      obtain ⟨fs, rest, hcons, hc⟩ := hplace
      exact ⟨fs, rest, hcons, hc, rfl⟩
  obtain ⟨fs, rest, rfl, rfl, hbetween⟩ := hdone
  obtain ⟨early, late, hcopied, -, hlate⟩ := h.copied
  refine ⟨early, late, hcopied, ?_⟩
  have hframes : (s.blocks s.ctx.curBlock.toNat).frames = fs := (h.holds hbetween).frames
  rw [List.headD_cons, List.take_length] at hlate
  rw [hframes]
  exact hlate

theorem RingInv.waits_for_nothing (h : RingInv s given pending c) {args : RecvArgs}
    (hpc : s.pc = .look args) (hfree : s.bd.user = false) :
    List.Forall₂ Delivered s.published s.received := by
  have hwin := h.window
  rw [RingState.base, hpc] at hwin
  have hnil : pending = [] := hwin.empty_of_free Holds.not_free hfree
  subst hnil
  obtain ⟨early, late, hcopied, hgiven, hlate⟩ := h.copied
  have hlate : late = [] := by
    rw [List.headD_nil, List.take_nil] at hlate
    exact List.forall₂_nil_left_iff.mp hlate
  have hreceived : s.received = early := by
    rw [hlate, List.append_nil, RingState.copied, hpc] at hcopied
    exact (List.append_nil _).symm.trans hcopied
  rw [h.published, hreceived, List.flatten_nil, List.append_nil]
  exact hgiven

end

/-- In every run of the reader, the kernel and a thread that asks for a stop, the calls that
returned a frame returned the first frames published, in order and each one once; a reader
that goes to sleep has left none behind. The block that is read is one with TP_STATUS_USER,
the packet lies inside it, and a block loses TP_STATUS_USER only when all its packets have
been copied out. -/
theorem ring_delivers_in_order {s : RingState} (h : ringSystem.Reachable s) :
    (∃ taken rest, s.published = taken ++ rest ∧ List.Forall₂ Delivered taken s.received) ∧
    (∀ args, s.pc = .look args → s.bd.user = false →
      List.Forall₂ Delivered s.published s.received) ∧
    (s.pc.reads = true → s.bd.user = true) ∧
    (s.pc.readsPacket = true → s.bd.PacketFits s.ctx.curPktOffset) ∧
    ∀ t k, RingStep s t → (s.blocks k).user = true → (t.blocks k).user = false →
      ∃ early late, s.copied = early ++ late ∧
        List.Forall₂ Delivered (s.blocks k).frames late := by
  obtain ⟨given, pending, c, hinv⟩ := ringInv_of_reachable h
  refine ⟨hinv.received_first, ?_, hinv.reads_user, hinv.reads_inside, ?_⟩
  · intro args hpc hfree
    exact hinv.waits_for_nothing hpc hfree
  · intro t k hst huser hfree
    exact hinv.gives_back hst huser hfree

def twoPackets : Block where
  blockStatus := tpStatusUser
  numPkts := 2
  offsetToFirstPkt := 48
  hdr := fun o => if o = 48 then ⟨52, 7, 8000, 3, 48⟩ else ⟨0, 9, 10000, 2, 48⟩
  byte := UInt8.ofNat

def emptyRing : RingState where
  blocks := fun _ => twoPackets.release
  ctx := openCtx
  pc := .idle
  recvs := []
  kernelAt := 0
  published := []

theorem emptyRing_start : RingStart emptyRing :=
  ⟨fun _ => free_release twoPackets, rfl, rfl, rfl, rfl, rfl⟩

def RingState.callFor (s : RingState) (bufLen : UInt32) (steps : Nat) : RingState :=
  (fun s : RingState => s.recvStep false)^[steps]
    (s.rawSocketRecv ⟨true, true, bufLen, true, true⟩)

theorem reachable_callFor {s : RingState} (h : ringSystem.Reachable s) (hpc : s.pc = .idle)
    (bufLen : UInt32) (steps : Nat) : ringSystem.Reachable (s.callFor bufLen steps) := by
  unfold RingState.callFor
  induction steps with
  | zero => exact h.step (.call _ hpc)
  | succ n ih =>
    rw [Function.iterate_succ_apply']
    exact ih.step (.recv false)

/-- The block is published, the first call has room for two bytes, the second for sixteen, and
the third finds a stop request. -/
def twoPacketsRun : RingState :=
  (((emptyRing.publish twoPackets).callFor 2 5).callFor 16 6).rawSocketRequestStop.callFor 16 1

theorem twoPacketsRun_reachable : ringSystem.Reachable twoPacketsRun := by
  have hstart : ringSystem.Reachable emptyRing := .init emptyRing_start
  have hpub := hstart.step (.publish twoPackets rfl ⟨rfl, by decide⟩)
  have hfirst := reachable_callFor hpub rfl 2 5
  have hsecond := reachable_callFor hfirst rfl 16 6
  exact reachable_callFor (hsecond.step .stop) rfl 16 1

theorem ring_delivers_in_order_two :
    ringSystem.Reachable twoPacketsRun ∧
    twoPacketsRun.recvs.map Recv.ret = [2, 2, rawSocketStopped] ∧
    twoPacketsRun.received.map Recv.buf = [[96, 97], [148, 149]] ∧
    ∃ taken rest, twoPacketsRun.published = taken ++ rest ∧
      List.Forall₂ Delivered taken twoPacketsRun.received := by
  have hdeliver := (ring_delivers_in_order twoPacketsRun_reachable).1
  exact ⟨twoPacketsRun_reachable, by decide, by decide, hdeliver⟩

end MyWireshark.Capture
