import Shelter.Gpu.Worker
import Shelter.Virtio.BlockWorker
import Shelter.Virtio.Segments

/-!
# No chain of the GPU queue is lost or returned early

Every chain that the worker has taken out of the queue is in its hands, or was returned once, or is
parked on a fence that is not complete; and a chain with a fence is returned after its fence was
reported. `chains_accounted` has this for every interleaving of the worker, the guest and the
reports, as long as the buffers are in guest memory, commands are implemented and have no fence id 0
and no fence without room for a response, and the renderer answers, creates every fence and reports
the fences of a ring in order. The runs at the end break some of these each.
-/

open Bytes

namespace Shelter.Gpu

open Virtio Run VirtioGpu List Option Nat

variable {M : Type} [GuestMemory M]

/-- A fence of this ring was reported, with this id or a higher one. -/
def Reported (reported : List RutabagaFence) (ring : VirtioGpuRing) (fenceId : U64) : Prop :=
  ∃ g ∈ reported, g.ring = ring ∧ fenceId ≤ g.fenceId
  deriving Decidable

/-- The chain is parked on its own fence, which was created and is not complete. -/
structure Waits (fenced : List (ℕ × RutabagaFence)) (created : List ℕ)
    (reported : List RutabagaFence) (d : FenceDescriptor) : Prop where
  own : ∃ f, f.ring = d.ring ∧ f.fenceId = d.fenceId ∧ ∀ g, (d.number, g) ∈ fenced ↔ g = f
  created : d.number ∈ created
  notReported : ¬ Reported reported d.ring d.fenceId

/-- Every chain that was taken out of the queue, and is not in the hands of the worker, was put in
the used ring once or is parked; and no chain with a fence was put there before its fence was
reported. -/
structure Accounted (s : VirtioGpu M) : Prop where
  once : ∀ n < s.popped, (∀ h ∈ s.pc.hand, h.number ≠ n) →
    (s.used.count n = 1 ∧ ∀ d ∈ s.fences.descs, d.number ≠ n) ∨
    (s.used.count n = 0 ∧ ∃ d ∈ s.fences.descs, d.number = n ∧
      Waits s.fenced s.created s.reported d)
  notBefore : ∀ n ∈ s.used, ∀ f, (n, f) ∈ s.fenced → Reported s.reported f.ring f.fenceId

variable (s : VirtioGpu M)

/-- The command that is about to be executed, and the writer for its response. -/
def VirtioGpu.nextCommand : Option (Decoded × Writer) :=
  match s.pc with
  | .commanding _ reader writer =>
    match GpuCommand.decode s.mem reader with
    | (.ok d, _) => some (d, writer)
    | (.error _, _) => none
  | _ => none

/-- Six commands are not implemented, and neither are blobs with a guest handle. -/
def Decoded.Unimplemented (d : Decoded) : Prop :=
  [GpuCommand.getDisplayInfo, .setScanout, .updateCursor, .moveCursor, .setScanoutBlob,
    .transferFromHost3d].contains d.cmd = true ∨
  d.cmd = .resourceCreateBlob ∧
    BitVec.ofNat 32 (infoWord d.info 8) &&& virtioGpuBlobFlagCreateGuestHandle ≠ 0
  deriving Decidable

/-- What the guest and the renderer have to keep to. The buffers of a chain are in guest memory when
it is opened; a command is implemented, the renderer answers it, and if it has a fence, the fence id
is not 0 and there is room for a response; fences can be created; and the reports of a ring are in
order. -/
def Orderly : Step → Prop
  | .newReaderWriter => ∀ h ∈ s.pc.hand, ∀ d ∈ h.head.intoIter.collect s.mem, InRegion s.mem d
  | .command answer => answer.isSome = true ∧ ∀ p ∈ s.nextCommand,
      ¬ p.1.Unimplemented ∧ ∀ f ∈ p.1.hdr.fence, f.fenceId ≠ 0 ∧ p.2.availableBytes ≠ 0
  | .createFence answer => answer = .ok ()
  | .complete f => ∀ g ∈ s.reported, g.ring = f.ring → g.fenceId ≤ f.fenceId
  | _ => True

instance (e : Step) : Decidable (Orderly s e) := by
  unfold Orderly
  split <;> infer_instance

/-! ## The invariant -/

def Pc.Due (fenced : List (ℕ × RutabagaFence)) (created : List ℕ) (reported : List RutabagaFence) :
    Pc → Prop
  | .waiting | .popping _ => True
  | .opening h | .commanding h _ _ | .encoding h none _ _ => ∀ g, (h.number, g) ∉ fenced
  | .fencing h f _ _ => f.fenceId ≠ 0 ∧ ∀ g, (h.number, g) ∈ fenced ↔ g = f
  | .encoding h (some f) _ _ | .parking h f _ =>
    f.fenceId ≠ 0 ∧ h.number ∈ created ∧ ∀ g, (h.number, g) ∈ fenced ↔ g = f
  | .returning h _ => ∀ g, (h.number, g) ∈ fenced → Reported reported g.ring g.fenceId
  | .panicked => False

def Recorded (reported : List RutabagaFence) (ring : VirtioGpuRing) : Option U64 → Prop
  | none => ∀ g ∈ reported, g.ring ≠ ring
  | some fenceId => (∃ g ∈ reported, g.ring = ring ∧ g.fenceId = fenceId) ∧
      ∀ g ∈ reported, g.ring = ring → g.fenceId ≤ fenceId

/-- How often a chain occurs: in the used ring, among the parked ones, in the hands of the
worker. -/
def VirtioGpu.places (n : ℕ) : ℕ :=
  s.used.count n + (s.fences.descs.map (·.number)).count n +
    (s.pc.hand.map (·.number)).toList.count n

structure Inv (s : VirtioGpu M) : Prop where
  rings : s.queue.RingsMapped s.mem
  parkedIndex : ∀ d ∈ s.fences.descs, d.descIndex < s.queue.size
  handIndex : ∀ h ∈ s.pc.hand, h.head.index < s.queue.size
  places : ∀ n, s.places n = if n < s.popped then 1 else 0
  parked : ∀ d ∈ s.fences.descs, Waits s.fenced s.created s.reported d
  returned : ∀ n ∈ s.used, ∀ f, (n, f) ∈ s.fenced → Reported s.reported f.ring f.fenceId
  recorded : ∀ ring, Recorded s.reported ring (s.fences.completedFences ring)
  known : ∀ n f, (n, f) ∈ s.fenced → n < s.popped
  due : s.pc.Due s.fenced s.created s.reported

section Consequences

variable {s : VirtioGpu M}

theorem Inv.accounted (h : Inv s) : Accounted s where
  once n hn hhand := by
    have hplaces := h.places n
    have hzero : (s.pc.hand.map (·.number)).toList.count n = 0 := by
      rw [count_eq_zero]
      intro hmem
      obtain ⟨hd, hhd, rfl⟩ := map_eq_some_iff.mp (mem_toList.mp hmem)
      exact hhand hd hhd rfl
    rw [if_pos hn, VirtioGpu.places, hzero, add_zero] at hplaces
    by_cases hparked : ∃ d ∈ s.fences.descs, d.number = n
    · right
      obtain ⟨d, hd, rfl⟩ := hparked
      have hpos : 0 < (s.fences.descs.map (·.number)).count d.number :=
        count_pos_iff.mpr (mem_map_of_mem hd)
      exact ⟨by omega, d, hd, rfl, h.parked d hd⟩
    · left
      have hnone : (s.fences.descs.map (·.number)).count n = 0 := by
        rw [count_eq_zero]
        intro hmem
        obtain ⟨d, hd, hdn⟩ := mem_map.mp hmem
        exact hparked ⟨d, hd, hdn⟩
      exact ⟨by omega, fun d hd hdn => hparked ⟨d, hd, hdn⟩⟩
  notBefore := h.returned

theorem Inv.hand_apart (h : Inv s) {hd : Hand} (hhd : s.pc.hand = some hd) :
    hd.number ∉ s.used ∧ (∀ d ∈ s.fences.descs, d.number ≠ hd.number) ∧ hd.number < s.popped := by
  have hplaces := h.places hd.number
  rw [VirtioGpu.places, hhd] at hplaces
  have hone : ((some hd).map (·.number)).toList.count hd.number = 1 := by simp
  rw [hone] at hplaces
  split_ifs at hplaces with hlt
  · refine ⟨count_eq_zero.mp (by omega), fun d hd' hdn => ?_, hlt⟩
    have hpos : 0 < (s.fences.descs.map (·.number)).count d.number :=
      count_pos_iff.mpr (mem_map_of_mem hd')
    rw [hdn] at hpos
    omega

theorem Reported.mono {reported : List RutabagaFence} {ring : VirtioGpuRing} {fenceId : U64}
    (h : Reported reported ring fenceId) (f : RutabagaFence) :
    Reported (f :: reported) ring fenceId := by
  obtain ⟨g, hg, hr⟩ := h
  exact ⟨g, mem_cons_of_mem _ hg, hr⟩

end Consequences

/-! ## One step -/

section Step

variable {s s' : VirtioGpu M} {created : List ℕ} {hand : Hand} {resp : GpuResponse}
  {writer : Writer} {f : RutabagaFence}

theorem Inv.at_pc (h : Inv s) {pc : Pc} (hpc : s.pc = pc) : Inv { s with pc := pc } := by
  subst hpc
  exact h

theorem inv_pop [LawfulGuestMemory M] (h : Inv s) {usedAny : Bool}
    (hpc : s.pc = .popping usedAny) : Inv (s.pop usedAny) := by
  replace h := h.at_pc hpc
  unfold pop
  rcases hpop : s.queue.pop s.mem with _ | ⟨_ | head, q⟩
  · -- the rings are mapped
    rw [Queue.pop_eq h.rings] at hpop
    split_ifs at hpop
  · obtain heq | ⟨c, heq, -⟩ := Queue.pop_cases hpop <;> cases heq
    exact { h with due := trivial }
  · have hcfg : Queue.SameConfig s.queue q := Queue.pop_config hpop
    have hindex : head.index < q.size := by
      obtain heq | ⟨c, heq, hlt⟩ := Queue.pop_cases hpop <;> cases heq
      exact hlt
    refine ⟨h.rings.congr hcfg (.refl _), ?_, ?_, fun n => count_next (h.places n), h.parked,
      h.returned, h.recorded, fun n f hf => lt_succ_of_lt (h.known n f hf),
      fun g hg => absurd (h.known _ g hg) (lt_irrefl _)⟩
    · rw [hcfg.size]
      exact h.parkedIndex
    · rintro _ ⟨⟩
      exact hindex

theorem inv_newReaderWriter (h : Inv s) (hpc : s.pc = .opening hand)
    (hin : ∀ d ∈ hand.head.intoIter.collect s.mem, InRegion s.mem d) :
    Inv (s.newReaderWriter hand) := by
  replace h := h.at_pc hpc
  obtain ⟨reader, writer, hr, hw⟩ := new_of_inRegion hin
  unfold newReaderWriter
  simp only [hr, hw]
  exact { h with due := h.due }

theorem processGpuCommand_isSome {m : M} {d : Decoded} (hd : ¬ d.Unimplemented) (reader : Reader)
    (answer : Except GpuResponse GpuResponse) :
    (processGpuCommand m d reader (some answer)).isSome = true := by
  obtain ⟨hcmd, hblob⟩ := not_or.mp hd
  unfold processGpuCommand
  cases hc : d.cmd <;> simp only [hc] at hcmd hblob ⊢
  case getDisplayInfo | setScanout | updateCursor | moveCursor | setScanoutBlob |
    transferFromHost3d => exact absurd rfl hcmd
  case resourceAttachBacking =>
    split_ifs
    · rfl
    · cases readObjs m 16 (infoWord d.info 4) reader <;> rfl
  case cmdSubmit3d =>
    split_ifs
    · rfl
    · cases readObjs m 8 (infoWord d.info 4) reader with
      | none => rfl
      | some r => rcases hread : r.readObj m (infoWord d.info 0) with ⟨_, _ | _, _⟩ <;> simp [hread]
  case resourceCreateBlob =>
    split_ifs with hshort hflag
    · rfl
    · exact absurd ⟨trivial, hflag⟩ hblob
    · cases readObjs m 16 (infoWord d.info 12) reader <;> rfl
  all_goals rfl

theorem inv_afterCommand (h : Inv s) {reader : Reader} (hpc : s.pc = .commanding hand reader writer)
    (resp : GpuResponse) : Inv { s with pc := .afterCommand hand none resp writer } := by
  replace h := h.at_pc hpc
  unfold Pc.afterCommand
  split_ifs
  · exact { h with due := fun g hg => absurd hg (h.due g) }
  · exact { h with due := h.due }

theorem inv_command (h : Inv s) {reader : Reader} (hpc : s.pc = .commanding hand reader writer)
    {answer : Except GpuResponse GpuResponse}
    (hcmd : ∀ p ∈ s.nextCommand,
      ¬ p.1.Unimplemented ∧ ∀ f ∈ p.1.hdr.fence, f.fenceId ≠ 0 ∧ p.2.availableBytes ≠ 0) :
    Inv (s.command hand reader writer (some answer)) := by
  have hnone := inv_afterCommand h hpc
  obtain ⟨hused, hparked, hlt⟩ := h.hand_apart (show s.pc.hand = some hand by rw [hpc]; rfl)
  unfold command
  unfold nextCommand at hcmd
  rw [hpc] at hcmd
  rcases hdec : GpuCommand.decode s.mem reader with ⟨e | d, reader'⟩ <;> simp only [hdec] at hcmd ⊢
  · exact hnone _
  obtain ⟨himpl, hfence⟩ := hcmd _ rfl
  obtain ⟨resp, hres⟩ := isSome_iff_exists.mp
    (processGpuCommand_isSome (m := s.mem) himpl reader' answer)
  rw [hres]
  rcases hf : d.hdr.fence with _ | f
  · exact hnone _
  obtain ⟨hid, hroom⟩ := hfence f hf
  -- the fence is the only one of this chain, and of no other
  have hmem : ∀ n g, (n, g) ∈ (hand.number, f) :: s.fenced ↔
      (n = hand.number ∧ g = f) ∨ (n, g) ∈ s.fenced := by
    intro n g
    rw [mem_cons, Prod.mk.injEq]
  have hother : ∀ n, n ≠ hand.number → ∀ g,
      (n, g) ∈ (hand.number, f) :: s.fenced ↔ (n, g) ∈ s.fenced := by
    intro n hn g
    rw [hmem]
    exact or_iff_right fun hc => hn hc.1
  replace h := h.at_pc hpc
  simp only [Pc.afterCommand, if_neg hroom]
  refine { h with
    parked := fun d hd => ?_, returned := fun n hn g hg => ?_, known := fun n g hg => ?_,
    due := ⟨hid, fun g => (hmem _ g).trans ?_⟩ }
  · obtain ⟨⟨f', hring, hid', hown⟩, hcr, hnr⟩ := h.parked d hd
    exact ⟨⟨f', hring, hid', fun g => (hother _ (hparked d hd) g).trans (hown g)⟩, hcr, hnr⟩
  · have hne : n ≠ hand.number := fun heq => hused (heq ▸ hn)
    exact h.returned n hn g ((hother n hne g).mp hg)
  · rcases (hmem n g).mp hg with ⟨rfl, -⟩ | hg
    · exact hlt
    · exact h.known n g hg
  · constructor
    · rintro (hg | hg)
      · exact hg.2
      · exact absurd hg (h.due g)
    · intro hg
      exact .inl ⟨rfl, hg⟩

theorem inv_createFence (h : Inv s) (hpc : s.pc = .fencing hand f resp writer) :
    Inv (s.createFence hand f resp writer (.ok ())) := by
  replace h := h.at_pc hpc
  exact { h with
    parked := fun d hd => { h.parked d hd with
      created := mem_cons_of_mem _ (h.parked d hd).created }
    due := ⟨h.due.1, mem_cons_self, h.due.2⟩ }

theorem inv_encode [LawfulGuestMemory M] (h : Inv s) {fence : Option RutabagaFence}
    (hpc : s.pc = .encoding hand fence resp writer) : Inv (s.encode hand fence resp writer) := by
  replace h := h.at_pc hpc
  have hrings := h.rings.congr (.refl _) (resp.encode_layout (fence.getD ⟨0, 0, 0, 0⟩).flags
    (fence.getD ⟨0, 0, 0, 0⟩).fenceId (fence.getD ⟨0, 0, 0, 0⟩).ctxId
    (fence.getD ⟨0, 0, 0, 0⟩).ringIdx s.mem writer)
  cases fence with
  | none => exact { h with rings := hrings, due := fun g hg => absurd hg (h.due g) }
  | some f => exact { h with rings := hrings, due := h.due }

/-- The chain is parked if no report for its fence is remembered, and then there was none. -/
theorem inv_processFence (h : Inv s) {len : U32} (hpc : s.pc = .parking hand f len) :
    Inv (s.processFence hand f len) := by
  replace h := h.at_pc hpc
  obtain ⟨hid, hcreated, hown⟩ := h.due
  have hrec := h.recorded f.ring
  unfold processFence
  split_ifs with hlt
  · have hnot : ¬ Reported s.reported f.ring f.fenceId := by
      rintro ⟨g, hg, hring, hle⟩
      rcases hc : s.fences.completedFences f.ring with _ | c <;> rw [hc] at hrec hlt
      · exact hrec g hg hring
      · have hmax := hrec.2 g hg hring
        have hlt' : c < f.fenceId := hlt
        bv_omega
    refine ⟨h.rings, forall_mem_snoc h.parkedIndex (h.handIndex hand rfl), nofun, fun n => ?_,
      forall_mem_snoc h.parked ⟨⟨f, rfl, rfl, hown⟩, hcreated, hnot⟩, h.returned, h.recorded,
      h.known, trivial⟩
    rw [← h.places n]
    unfold places
    simp only [map_append, count_append]
    exact (add_assoc ..).symm
  · refine { h with due := fun g hg => ?_ }
    obtain rfl := (hown g).mp hg
    rcases hc : s.fences.completedFences g.ring with _ | c <;> rw [hc] at hrec hlt
    · -- 0 is not less than the id only if the id is 0
      exact absurd (show g.fenceId = 0 by simp only [getD_none] at hlt; bv_omega) hid
    · obtain ⟨g', hg', hring, rfl⟩ := hrec.1
      exact ⟨g', hg', hring, by simp only [getD_some] at hlt; bv_omega⟩

section Rings

variable [LawfulGuestMemory M]

theorem addUsed_eq (hr : s.queue.RingsMapped s.mem) {index : U16} (hi : index < s.queue.size)
    (number : ℕ) (len : U32) :
    ∃ m, s.addUsed number index len =
        { s with queue := s.queue.bumpUsed, mem := m, used := number :: s.used } ∧
      SameLayout s.mem m := by
  obtain ⟨m, hrun, hlayout, -⟩ := Queue.addUsed_run hr hi len
  refine ⟨m, ?_, hlayout⟩
  unfold addUsed
  rw [hrun]

theorem inv_addUsed (h : Inv s) {len : U32} (hpc : s.pc = .returning hand len) :
    Inv { s.addUsed hand.number hand.head.index len with pc := .popping true } := by
  obtain ⟨m, heq, hlayout⟩ := addUsed_eq h.rings (h.handIndex hand (by rw [hpc]; rfl))
    hand.number len
  replace h := h.at_pc hpc
  rw [heq]
  refine ⟨h.rings.congr (.bumpUsed _) hlayout, h.parkedIndex, nofun, fun n => ?_, h.parked,
    fun n hn f hf => ?_, h.recorded, h.known, trivial⟩
  · rw [← h.places n]
    have hcount : (hand.number :: s.used).count n = [hand.number].count n + s.used.count n := by
      rw [← singleton_append, count_append]
    show (hand.number :: s.used).count n + (s.fences.descs.map (·.number)).count n + 0 =
      s.used.count n + (s.fences.descs.map (·.number)).count n + [hand.number].count n
    omega
  · rcases mem_cons.mp hn with rfl | hn
    · exact h.due f hf
    · exact h.returned n hn f hf

def FenceDescriptor.isDue (f : RutabagaFence) (d : FenceDescriptor) : Bool :=
  decide (d.ring = f.ring ∧ d.fenceId ≤ f.fenceId)

theorem returnDue_eq (f : RutabagaFence) {descs : List FenceDescriptor}
    (hr : s.queue.RingsMapped s.mem) (hi : ∀ d ∈ descs, d.descIndex < s.queue.size) :
    ∃ q m k, returnDue f.ring f.fenceId descs s =
        (descs.filter fun d => !d.isDue f, { s with
          queue := q
          mem := m
          interrupts := k
          used := ((descs.filter fun d => d.isDue f).map (·.number)).reverse ++ s.used }) ∧
      Queue.SameConfig s.queue q ∧ SameLayout s.mem m := by
  induction descs generalizing s with
  | nil => exact ⟨_, _, _, rfl, .refl _, .refl _⟩
  | cons d descs ih =>
    have htail : ∀ d' ∈ descs, d'.descIndex < s.queue.size := fun d' hd' =>
      hi d' (mem_cons_of_mem _ hd')
    unfold returnDue
    by_cases hdue : d.ring = f.ring ∧ d.fenceId ≤ f.fenceId
    · have htrue : d.isDue f = true := decide_eq_true hdue
      obtain ⟨m, heq, hlayout⟩ := addUsed_eq hr (hi d mem_cons_self) d.number d.len
      rw [if_pos hdue, heq]
      obtain ⟨q, m', k, hrest, hcfg, hlayout'⟩ := ih
        (s := { s with
          queue := s.queue.bumpUsed
          mem := m
          used := d.number :: s.used
          interrupts := s.interrupts + 1 })
        (hr.congr (.bumpUsed _) hlayout) htail
      refine ⟨q, m', k, ?_, (Queue.SameConfig.bumpUsed _).trans hcfg, hlayout.trans hlayout'⟩
      refine hrest.trans ?_
      simp [htrue]
    · have hfalse : d.isDue f = false := decide_eq_false hdue
      obtain ⟨q, m', k, hrest, hcfg, hlayout'⟩ := ih hr htail
      rw [if_neg hdue]
      refine ⟨q, m', k, ?_, hcfg, hlayout'⟩
      simp [hrest, hfalse]

variable {reported : List RutabagaFence}

theorem recorded_cons {completed : VirtioGpuRing → Option U64}
    (h : ∀ ring, Recorded reported ring (completed ring))
    (horder : ∀ g ∈ reported, g.ring = f.ring → g.fenceId ≤ f.fenceId) (ring : VirtioGpuRing) :
    Recorded (f :: reported) ring (Function.update completed f.ring (some f.fenceId) ring) := by
  by_cases hring : ring = f.ring
  · subst hring
    rw [Function.update_self]
    refine ⟨⟨f, mem_cons_self, rfl, rfl⟩, fun g hg hgr => ?_⟩
    rcases mem_cons.mp hg with rfl | hg
    · exact BitVec.le_refl _
    · exact horder g hg hgr
  · rw [Function.update_of_ne hring]
    have hold := h ring
    have hother : ∀ g ∈ f :: reported, g.ring = ring → g ∈ reported := by
      intro g hg hgr
      rcases mem_cons.mp hg with rfl | hg
      · exact absurd hgr.symm hring
      · exact hg
    rcases hc : completed ring with _ | c <;> rw [hc] at hold
    · exact fun g hg hgr => hold g (hother g hg hgr) hgr
    · obtain ⟨⟨g, hg, hgr, hgc⟩, hmax⟩ := hold
      exact ⟨⟨g, mem_cons_of_mem _ hg, hgr, hgc⟩, fun g hg hgr => hmax g (hother g hg hgr) hgr⟩

theorem Pc.Due.report {fenced : List (ℕ × RutabagaFence)} {pc : Pc}
    (h : pc.Due fenced created reported) (f : RutabagaFence) :
    pc.Due fenced created (f :: reported) := by
  match pc with
  | .waiting | .popping _ => trivial
  | .opening _ | .commanding _ _ _ | .encoding _ none _ _ => exact h
  | .fencing _ _ _ _ => exact h
  | .encoding _ (some _) _ _ | .parking _ _ _ => exact h
  | .returning _ _ => exact fun g hg => (h g hg).mono f

theorem inv_complete (h : Inv s)
    (horder : ∀ g ∈ s.reported, g.ring = f.ring → g.fenceId ≤ f.fenceId) :
    Inv (s.fenceHandler f) := by
  obtain ⟨q, m, k, heq, hcfg, hlayout⟩ := returnDue_eq f h.rings h.parkedIndex
  unfold fenceHandler
  rw [heq]
  have hkept : ∀ d ∈ s.fences.descs.filter (fun d => !d.isDue f),
      d ∈ s.fences.descs ∧ ¬ (d.ring = f.ring ∧ d.fenceId ≤ f.fenceId) := by
    intro d hd
    obtain ⟨hmem, hnot⟩ := mem_filter.mp hd
    refine ⟨hmem, fun hdue => ?_⟩
    have htrue : d.isDue f = true := decide_eq_true hdue
    rw [htrue] at hnot
    cases hnot
  refine ⟨h.rings.congr hcfg hlayout, fun d hd => ?_, ?_, fun n => ?_, fun d hd => ?_,
    fun n hn g hg => ?_, recorded_cons h.recorded horder, h.known, h.due.report f⟩
  · rw [hcfg.size]
    exact h.parkedIndex d (hkept d hd).1
  · rw [hcfg.size]
    exact h.handIndex
  · rw [← h.places n]
    have hsplit : (s.fences.descs.map (·.number)).count n =
        ((s.fences.descs.filter fun d => d.isDue f).map (·.number)).count n +
          ((s.fences.descs.filter fun d => !d.isDue f).map (·.number)).count n := by
      have hperm := filter_append_perm (fun d : FenceDescriptor => d.isDue f) s.fences.descs
      rw [← (hperm.map (·.number)).count_eq n, map_append, count_append]
    unfold places
    simp only [count_append, count_reverse]
    omega
  · obtain ⟨hmem, hnot⟩ := hkept d hd
    obtain ⟨hown, hcreated, hnr⟩ := h.parked d hmem
    refine ⟨hown, hcreated, ?_⟩
    rintro ⟨g, hg, hgr, hle⟩
    rcases mem_cons.mp hg with rfl | hg
    · exact hnot ⟨hgr.symm, hle⟩
    · exact hnr ⟨g, hg, hgr, hle⟩
  · rcases mem_append.mp hn with hn | hn
    · obtain ⟨d, hd, rfl⟩ := mem_map.mp (mem_reverse.mp hn)
      obtain ⟨hmem, hdue⟩ := mem_filter.mp hd
      have hdue' : d.ring = f.ring ∧ d.fenceId ≤ f.fenceId := of_decide_eq_true hdue
      obtain ⟨⟨f', hring, hid, hown⟩, -, -⟩ := h.parked d hmem
      obtain rfl := (hown g).mp hg
      exact ⟨f, mem_cons_self, by rw [hring, hdue'.1], by rw [hid]; exact hdue'.2⟩
    · exact (h.returned n hn g hg).mono f

theorem step_inv (s : VirtioGpu M) (e : Step) (s' : VirtioGpu M) (h : Inv s) (ho : Orderly s e)
    (hs : s.step e = some s') : Inv s' := by
  cases e with
  | recv =>
    simp only [VirtioGpu.step] at hs
    split_ifs at hs with hpc
    cases hs
    exact { h.at_pc hpc with due := trivial }
  | pop =>
    simp only [VirtioGpu.step] at hs
    split at hs <;> cases hs
    exact inv_pop h ‹_›
  | newReaderWriter =>
    simp only [VirtioGpu.step] at hs
    split at hs <;> cases hs
    next hand hpc => exact inv_newReaderWriter h hpc (ho hand (by rw [hpc]; rfl))
  | command answer =>
    simp only [VirtioGpu.step] at hs
    split at hs <;> cases hs
    obtain ⟨hsome, hcmd⟩ := ho
    obtain ⟨answer, rfl⟩ := isSome_iff_exists.mp hsome
    exact inv_command h ‹_› hcmd
  | createFence answer =>
    simp only [VirtioGpu.step] at hs
    split at hs <;> cases hs
    obtain rfl : answer = .ok () := ho
    exact inv_createFence h ‹_›
  | encode =>
    simp only [VirtioGpu.step] at hs
    split at hs <;> cases hs
    exact inv_encode h ‹_›
  | processFence =>
    simp only [VirtioGpu.step] at hs
    split at hs <;> cases hs
    exact inv_processFence h ‹_›
  | addUsed =>
    simp only [VirtioGpu.step] at hs
    split at hs <;> cases hs
    exact inv_addUsed h ‹_›
  | complete f =>
    cases hs
    exact inv_complete h ho
  | guest addr bs =>
    cases hs
    exact { h with
      rings := h.rings.congr (.refl _) (LawfulGuestMemory.writeSlice_find s.mem addr bs) }

end Rings

end Step

/-! ## All runs -/

/-- A device that was just activated: no chain was taken, and the worker waits. -/
structure Fresh (s : VirtioGpu M) : Prop where
  rings : s.queue.RingsMapped s.mem
  pc : s.pc = .waiting
  descs : s.fences.descs = []
  completedFences : ∀ ring, s.fences.completedFences ring = none
  history : s.popped = 0 ∧ s.used = [] ∧ s.fenced = [] ∧ s.created = [] ∧ s.reported = []

variable {s : VirtioGpu M}

theorem Fresh.inv (h : Fresh s) : Inv s := by
  obtain ⟨hr, hpc, hdescs, hcompleted, hpopped, hused, hfenced, hcreated, hreported⟩ := h
  refine ⟨hr, ?_, ?_, fun n => ?_, ?_, ?_, fun ring => ?_, ?_, ?_⟩
  · simp [hdescs]
  · simp [hpc, Pc.hand]
  · simp [places, hused, hdescs, hpc, Pc.hand, hpopped]
  · simp [hdescs]
  · simp [hused]
  · simp [hcompleted, hreported, Recorded]
  · simp [hfenced]
  · simp [hpc, Pc.Due]

/-- **Chains and fences.** After every orderly run of the device, each chain that was taken out of
the queue and is not being worked on was returned once, or is parked on a fence that was created and
is not complete; and a chain with a fence was not returned before a report of its fence, or of a
higher one of its ring. -/
theorem chains_accounted [LawfulGuestMemory M] {s s' : VirtioGpu M} (hs : Fresh s)
    {steps : List Step} (ho : Along VirtioGpu.step Orderly s steps)
    (hr : run VirtioGpu.step s steps = some s') : Accounted s' :=
  (along_invariant step_inv hs.inv ho hr).accounted

/-! ## Runs of one chain -/

/-- A device with one chain in its queue: a command of this type with the fence `fenceId`, and room
for a response. -/
def oneCommand (type : U32) (fenceId : U64) : VirtioGpu FlatMemory where
  queue := smallQueue
  mem := (servedMemory 0 ⟨0x100, 48, 1, 1⟩ ⟨0x140, 24, 2, 0⟩).put 0x100
    (CtrlHdr.toBytes ⟨type, virtioGpuFlagFence, fenceId, 0, 0⟩)
  fences := ⟨[], fun _ => none⟩
  pc := .waiting
  interrupts := 0
  popped := 0
  used := []
  fenced := []
  created := []
  reported := []

theorem oneCommand_fresh (type : U32) (fenceId : U64) : Fresh (oneCommand type fenceId) where
  rings := smallQueue_rings.congr (.refl _) fun _ => rfl
  pc := rfl
  descs := rfl
  completedFences _ := rfl
  history := ⟨rfl, rfl, rfl, rfl, rfl⟩

/-- `VIRTIO_GPU_CMD_CTX_DESTROY`, which has nothing after the header. -/
def ctxDestroy : U32 := 0x201

def execution : List Step := [.recv, .pop, .newReaderWriter, .command (some (.ok .okNoData))]

def report (fenceId : U64) : Step := .complete ⟨virtioGpuFlagFence, fenceId, 0, 0⟩

/-- The chain is parked, and returned when its fence is reported. -/
theorem chains_accounted_parked : ∃ s', run VirtioGpu.step (oneCommand ctxDestroy 4)
      (execution ++ [.createFence (.ok ()), .encode, .processFence, report 4]) = some s' ∧
    s'.used = [0] ∧ Accounted s' := by
  obtain ⟨s', hrun, hs'⟩ : ∃ s', run VirtioGpu.step (oneCommand ctxDestroy 4) (execution ++
      [.createFence (.ok ()), .encode, .processFence, report 4]) = some s' ∧ s'.used = [0] := by
    decide +kernel
  exact ⟨s', hrun, hs', chains_accounted (oneCommand_fresh _ _) (by decide +kernel) hrun⟩

/-- What `Accounted` is about. -/
structure Outline where
  popped : ℕ
  used : List ℕ
  inHand : Bool
  descs : List FenceDescriptor
  fenced : List (ℕ × RutabagaFence)
  created : List ℕ
  reported : List RutabagaFence
  deriving DecidableEq, Repr

def outline (s : VirtioGpu M) : Outline :=
  ⟨s.popped, s.used, s.pc.hand.isSome, s.fences.descs, s.fenced, s.created, s.reported⟩

/-- Without a chain in the hands of the worker, the first chain has to be in the used ring or
parked. -/
theorem not_accounted {es : List Step} {o : Outline}
    (hout : (run VirtioGpu.step s es).map outline = some o) (hpopped : 0 < o.popped)
    (hhand : o.inHand = false) (hused : 0 ∉ o.used)
    (hparked : ∀ d ∈ o.descs, d.number ∈ o.created → Reported o.reported d.ring d.fenceId) :
    ∃ s', run VirtioGpu.step s es = some s' ∧ ¬ Accounted s' := by
  obtain ⟨s', hrun, rfl⟩ := map_eq_some_iff.mp hout
  refine ⟨s', hrun, fun h => ?_⟩
  rw [outline, isSome_eq_false_iff, isNone_iff_eq_none] at hhand
  rcases h.once 0 hpopped (by simp [hhand]) with ⟨hcount, -⟩ | ⟨-, d, hd, -, hwaits⟩
  · cases hcount.symm.trans (count_eq_zero.mpr hused)
  · exact hwaits.notReported (hparked d hd hwaits.created)

/-- A chain waits for a fence that could not be created; a chain waits for a fence that is complete,
as a lower one was reported since; a chain with the fence id 0 does not wait; and a command that is
not implemented ends the worker. -/
theorem chains_not_accounted :
    (∃ s', run VirtioGpu.step (oneCommand ctxDestroy 4)
        (execution ++ [.createFence (.error .errRutabaga), .encode, .processFence]) = some s' ∧
      ¬ Accounted s') ∧
    (∃ s', run VirtioGpu.step (oneCommand ctxDestroy 4)
        (execution ++ [.createFence (.ok ()), report 5, report 3, .encode, .processFence]) =
          some s' ∧
      ¬ Accounted s') ∧
    (∃ s', run VirtioGpu.step (oneCommand ctxDestroy 0)
        (execution ++ [.createFence (.ok ()), .encode, .processFence, .addUsed]) = some s' ∧
      ¬ Accounted s') ∧
    ∃ s', run VirtioGpu.step (oneCommand 0x100 4) execution = some s' ∧ ¬ Accounted s' := by
  refine ⟨?_, ?_, ?_, ?_⟩
  · exact not_accounted (o := ⟨1, [], false, [⟨.global, 4, 0, 24, 0⟩], [(0, ⟨1, 4, 0, 0⟩)], [], []⟩)
      (by decide +kernel) (by decide) rfl (by decide) (by decide)
  · exact not_accounted (o := ⟨1, [], false, [⟨.global, 4, 0, 24, 0⟩], [(0, ⟨1, 4, 0, 0⟩)], [0],
      [⟨1, 3, 0, 0⟩, ⟨1, 5, 0, 0⟩]⟩) (by decide +kernel) (by decide) rfl (by decide) (by decide)
  · obtain ⟨s', hrun, hused, hfenced, hreported⟩ : ∃ s',
        run VirtioGpu.step (oneCommand ctxDestroy 0)
          (execution ++ [.createFence (.ok ()), .encode, .processFence, .addUsed]) = some s' ∧
        s'.used = [0] ∧ s'.fenced = [(0, ⟨1, 0, 0, 0⟩)] ∧ s'.reported = [] := by decide +kernel
    refine ⟨s', hrun, fun h => ?_⟩
    obtain ⟨g, hg, -⟩ := h.notBefore 0 (by simp [hused]) ⟨1, 0, 0, 0⟩ (by simp [hfenced])
    rw [hreported] at hg
    cases hg
  · exact not_accounted (o := ⟨1, [], false, [], [], [], []⟩) (by decide +kernel) (by decide) rfl
      (by decide) (by decide)

end Shelter.Gpu
