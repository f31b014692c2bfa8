import Psplink.HostFs.AsyncChannels

/-!
# What the rings hold

Each step is about one channel and leaves the others as they are, so each invariant is a statement
about the channel of the step alone.
-/

namespace Psplink.HostFs
open Psplink.Lib

section
variable {ι τ : Type}

def Caller.channel : Caller → Option Channel
  | .idle => none
  | .waiting ch _ | .taken ch _ | .flushing ch => some ch

/-- The channel that a step is about. -/
def Async.target (s : Async ι τ) : AsyncEvent ι τ → Option Channel
  | .fill packet => (s.header packet).map Prod.fst
  | .register chan _ => s.slotFor chan
  | .unregister chan | .read _ chan _ | .flush _ chan => channelOf chan
  | .take t | .abandon t | .readSection t | .flushSection t => (s.caller t).channel

/-- A channel and its endpoint are the same in both states. -/
structure Async.Same (s s' : Async ι τ) (ch : Channel) : Prop where
  chan : s'.chan ch = s.chan ch
  endp : ∀ e, s.chan ch = some e → s'.endp e = s.endp e
  event : s'.event ch = s.event ch
  accepted : s'.accepted ch = s.accepted ch
  delivered : s'.delivered ch = s.delivered ch

def Async.Apart (s : Async ι τ) : Prop :=
  ∀ ⦃ch ch' e⦄, s.chan ch = some e → s.chan ch' = some e → ch = ch'

theorem Async.Same.refl (s : Async ι τ) (ch : Channel) : s.Same s ch :=
  ⟨rfl, fun _ _ => rfl, rfl, rfl, rfl⟩

variable {s s' : Async ι τ} {ch ch' : Channel} {e : ι}

theorem Async.Apart.other (apart : s.Apart) (slot : s.chan ch = some e) (other : ch' ≠ ch) {e' : ι}
    (slot' : s.chan ch' = some e') : e' ≠ e := by
  rintro rfl
  exact other (apart slot' slot)

theorem Async.Same.setEvent (same : s.Same s' ch') (other : ch' ≠ ch) (bit : Bool) :
    s.Same (s'.setEvent ch bit) ch' :=
  ⟨same.chan, same.endp, (Function.update_of_ne other _ _).trans same.event, same.accepted,
    same.delivered⟩

variable [DecidableEq ι]

theorem Async.Apart.same_store (apart : s.Apart) (slot : s.chan ch = some e) (other : ch' ≠ ch)
    (data : Bytes) : s.Same (s.store ch e data) ch' where
  chan := rfl
  endp _ slot' := Function.update_of_ne (apart.other slot other slot') _ _
  event := Function.update_of_ne other _ _
  accepted := Function.update_of_ne other _ _
  delivered := rfl

theorem Async.Apart.same_flush (apart : s.Apart) (slot : s.chan ch = some e) (other : ch' ≠ ch) :
    s.Same (s.flush ch e) ch' where
  chan := rfl
  endp _ slot' := Function.update_of_ne (apart.other slot other slot') _ _
  event := Function.update_of_ne other _ _
  accepted := Function.update_of_ne other _ _
  delivered := Function.update_of_ne other _ _

theorem Async.Apart.same_give (apart : s.Apart) (slot : s.chan ch = some e) (other : ch' ≠ ch) (n : Nat) :
    s.Same (s.give ch e n) ch' where
  chan := rfl
  endp _ slot' := Function.update_of_ne (apart.other slot other slot') _ _
  event := rfl
  accepted := rfl
  delivered := Function.update_of_ne other _ _

theorem same_attach (fresh : ∀ ch, s.chan ch ≠ some e) (other : ch' ≠ ch) :
    s.Same (s.attach ch e) ch' where
  chan := Function.update_of_ne other _ _
  endp e' slot' := by
    apply Function.update_of_ne
    rintro rfl
    exact fresh ch' slot'
  event := Function.update_of_ne other _ _
  accepted := Function.update_of_ne other _ _
  delivered := Function.update_of_ne other _ _

variable [DecidableEq τ]

omit [DecidableEq ι] in
theorem Async.Same.setCaller (same : s.Same s' ch) (t : τ) (c : Caller) : s.Same (s'.setCaller t c) ch :=
  ⟨same.chan, same.endp, same.event, same.accepted, same.delivered⟩

theorem Async.Apart.same_readSection (apart : s.Apart) (other : ch' ≠ ch) (t : τ) (len : Int) :
    s.Same (s.readSection t ch len) ch' := by
  unfold Async.readSection
  split
  · exact ⟨rfl, fun _ _ => rfl, rfl, rfl, rfl⟩
  · rename_i e slot
    apply Async.Same.setCaller
    split
    · exact (apart.same_give slot other _).setEvent other true
    · exact apart.same_give slot other _

theorem Async.Apart.same_flushSection (apart : s.Apart) (other : ch' ≠ ch) (t : τ) :
    s.Same (s.flushSection t ch) ch' := by
  unfold Async.flushSection
  split
  · exact ⟨rfl, fun _ _ => rfl, rfl, rfl, rfl⟩
  · exact (apart.same_flush ‹_› other).setCaller t .idle

theorem Move.same {a : AsyncEvent ι τ} (move : Move s a s') (apart : s.Apart) (distinct : Distinct s a)
    (other : s.target a ≠ some ch') : s.Same s' ch' := by
  have differs {ch : Channel} (target : s.target a = some ch) : ch' ≠ ch := by
    rintro rfl
    exact other target
  cases move with
  | none => exact .refl s ch'
  | store header =>
      apply apart.same_store (slot_of_header header) (differs _)
      simp [Async.target, header]
  | attach slot => exact same_attach distinct (differs slot)
  | detach names => exact ⟨Function.update_of_ne (differs names) _ _, fun _ _ => rfl, rfl, rfl, rfl⟩
  | wait => exact (Async.Same.refl s ch').setCaller _ _
  | take waiting =>
      apply ((Async.Same.refl s ch').setEvent (differs _) false).setCaller
      simp [Async.target, waiting, Caller.channel]
  | abandon => exact (Async.Same.refl s ch').setCaller _ _
  | read taken =>
      apply apart.same_readSection (differs _)
      simp [Async.target, taken, Caller.channel]
  | flush => exact (Async.Same.refl s ch').setCaller _ _
  | flushed flushing =>
      apply apart.same_flushSection (differs _)
      simp [Async.target, flushing, Caller.channel]

theorem Move.apart {a : AsyncEvent ι τ} (move : Move s a s') (apart : s.Apart) (distinct : Distinct s a) :
    s'.Apart := by
  cases move with
  | none => exact apart
  | store => exact apart
  | @attach _ ch e slot empty =>
      intro ch₁ ch₂ e' slot₁ slot₂
      change Function.update s.chan ch (some e) ch₁ = some e' at slot₁
      change Function.update s.chan ch (some e) ch₂ = some e' at slot₂
      rw [Function.update_apply] at slot₁ slot₂
      split at slot₁ <;> split at slot₂
      · subst_vars
        rfl
      · cases slot₁
        exact absurd slot₂ (distinct ch₂)
      · cases slot₂
        exact absurd slot₁ (distinct ch₁)
      · exact apart slot₁ slot₂
  | @detach _ ch =>
      intro ch₁ ch₂ e' slot₁ slot₂
      change Function.update s.chan ch _ ch₁ = some e' at slot₁
      change Function.update s.chan ch _ ch₂ = some e' at slot₂
      rw [Function.update_apply] at slot₁ slot₂
      split at slot₁
      · cases slot₁
      · split at slot₂
        · cases slot₂
        · exact apart slot₁ slot₂
  | wait => exact apart
  | take => exact apart
  | abandon => exact apart
  | read =>
      unfold Async.readSection
      split
      · exact apart
      · dsimp only
        split <;> exact apart
  | flush => exact apart
  | flushed =>
      unfold Async.flushSection
      split <;> exact apart

/-! ## What a ring holds -/

/-- The ring of a channel holds what has been accepted and not delivered. -/
def Async.Holds (s : Async ι τ) (ch : Channel) : Prop :=
  ∀ e, s.chan ch = some e → ∃ xs, s.accepted ch = s.delivered ch ++ xs ∧
    RingBuffer.Fifo maxAsyncBuffer (s.endp e) xs

omit [DecidableEq ι] [DecidableEq τ] in
theorem Async.Holds.same (holds : s.Holds ch) (same : s.Same s' ch) : s'.Holds ch := by
  intro e slot
  rw [same.chan] at slot
  rw [same.accepted, same.delivered, same.endp e slot]
  exact holds e slot

omit [DecidableEq τ] in
theorem Async.Holds.store (holds : s.Holds ch) (slot : s.chan ch = some e) (data : Bytes) :
    (s.store ch e data).Holds ch := by
  intro e' slot'
  cases slot.symm.trans slot'
  obtain ⟨xs, record, fifo⟩ := holds e slot
  refine ⟨xs ++ Async.fits (s.endp e) data, ?_, ?_⟩
  · simp [Async.store, record, Async.setEvent, Async.setRing]
  · have space : (s.endp e).size + (Async.fits (s.endp e) data).length ≤ maxAsyncBuffer := by
      have room := fifo.room
      rw [Async.fits, List.length_take]
      split <;> omega
    have pushed := fifo.pushAll space
    simpa [Async.store, Async.setEvent, Async.setRing] using pushed

omit [DecidableEq τ] in
theorem holds_flush (slot : s.chan ch = some e) : (s.flush ch e).Holds ch := by
  intro e' slot'
  cases slot.symm.trans slot'
  refine ⟨[], ?_, ?_⟩
  · simp [Async.flush]
  · simpa [Async.flush, Async.setEvent, Async.setRing] using
      RingBuffer.Fifo.clear (s.endp e) (by decide : 0 < maxAsyncBuffer)

omit [DecidableEq τ] in
theorem Async.Holds.give (holds : s.Holds ch) (slot : s.chan ch = some e) (len : Int) :
    (s.give ch e (Async.readLen (s.endp e) len)).Holds ch := by
  intro e' slot'
  cases slot.symm.trans slot'
  obtain ⟨xs, record, fifo⟩ := holds e slot
  have enough : Async.readLen (s.endp e) len ≤ xs.length := by
    have size := fifo.size
    unfold Async.readLen
    split <;> omega
  obtain ⟨taken, left⟩ := fifo.popMany enough
  refine ⟨xs.drop (Async.readLen (s.endp e) len), ?_, ?_⟩
  · simp [Async.give, Async.setRing, taken, record]
  · simpa [Async.give, Async.setRing] using left

theorem Async.Holds.readSection (holds : s.Holds ch) (t : τ) (len : Int) :
    (s.readSection t ch len).Holds ch := by
  unfold Async.readSection
  split
  · exact holds
  · dsimp only
    split <;> exact holds.give ‹_› len

theorem Move.holds {a : AsyncEvent ι τ} (move : Move s a s') (target : s.target a = some ch)
    (holds : s.Holds ch) : s'.Holds ch := by
  cases move with
  | none => exact holds
  | store header =>
      cases target.symm.trans (congrArg (Option.map Prod.fst) header)
      exact holds.store (slot_of_header header) _
  | attach slot =>
      cases target.symm.trans slot
      exact holds_flush (Function.update_self ..)
  | detach names =>
      cases target.symm.trans names
      intro e slot
      change Function.update s.chan ch _ ch = some e at slot
      rw [Function.update_self] at slot
      cases slot
  | wait => exact holds
  | take => exact holds
  | abandon => exact holds
  | read taken =>
      cases target.symm.trans (congrArg Caller.channel taken)
      exact holds.readSection _ _
  | flush => exact holds
  | flushed flushing =>
      cases target.symm.trans (congrArg Caller.channel flushing)
      unfold Async.flushSection
      split
      · exact holds
      · exact holds_flush ‹_›

/-! ## What a bit means -/

/-- A channel with data has its bit set, or a reader has taken the bit and will look. -/
def Async.Awake (s : Async ι τ) (ch : Channel) : Prop :=
  ∀ e, s.chan ch = some e → 0 < (s.endp e).size →
    s.event ch = true ∨ ∃ t len, s.caller t = .taken ch len

theorem Move.keeps_taken {a : AsyncEvent ι τ} (move : Move s a s') {t : τ} {len : Int}
    (taken : s.caller t = .taken ch len) : s'.caller t = .taken ch len ∨ a = .readSection t := by
  have kept {t' : τ} {c : Caller} (differs : s.caller t' ≠ .taken ch len) :
      Function.update s.caller t' c t = .taken ch len := by
    rw [Function.update_of_ne _ _ _, taken]
    rintro rfl
    exact differs taken
  cases move with
  | none => exact .inl taken
  | store => exact .inl taken
  | attach => exact .inl taken
  | detach => exact .inl taken
  | wait idle => exact .inl (kept (by simp [idle]))
  | take waiting => exact .inl (kept (by simp [waiting]))
  | abandon waiting => exact .inl (kept (by simp [waiting]))
  | @read t' ch' _ _ =>
      by_cases same : t' = t
      · exact .inr (same ▸ rfl)
      · left
        unfold Async.readSection
        split
        · exact taken
        · have apart : t ≠ t' := fun h => same h.symm
          dsimp only
          split <;> exact (Function.update_of_ne apart _ _).trans taken
  | flush idle => exact .inl (kept (by simp [idle]))
  | flushed flushing =>
      left
      unfold Async.flushSection
      split
      · exact taken
      · exact kept (nofun ∘ flushing.symm.trans)

theorem Async.Awake.same {a : AsyncEvent ι τ} (awake : s.Awake ch) (move : Move s a s')
    (same : s.Same s' ch) (other : ∀ t len, s.caller t = .taken ch len → a ≠ .readSection t) :
    s'.Awake ch := by
  intro e slot data
  rw [same.chan] at slot
  rw [same.endp e slot] at data
  rw [same.event]
  apply (awake e slot data).imp_right
  rintro ⟨t, len, taken⟩
  exact ⟨t, len, (move.keeps_taken taken).resolve_right (other t len taken)⟩

omit [DecidableEq ι] [DecidableEq τ] in
theorem awake_of_empty (empty : ∀ e, s.chan ch = some e → (s.endp e).size = 0) : s.Awake ch := by
  intro e slot data
  rw [empty e slot] at data
  exact absurd data (lt_irrefl 0)

omit [DecidableEq τ] in
theorem flush_empty (slot : s.chan ch = some e) {e' : ι} (slot' : (s.flush ch e).chan ch = some e') :
    ((s.flush ch e).endp e').size = 0 := by
  cases slot.symm.trans slot'
  simp [Async.flush, Async.setRing, Async.setEvent, RingBuffer.clear]

theorem Move.awake {a : AsyncEvent ι τ} (move : Move s a s') (target : s.target a = some ch)
    (awake : s.Awake ch) : s'.Awake ch := by
  cases move with
  | none => exact awake
  | store header =>
      cases target.symm.trans (congrArg (Option.map Prod.fst) header)
      intro e' _ _
      left
      exact Function.update_self ..
  | attach slot =>
      cases target.symm.trans slot
      apply awake_of_empty
      intro e' slot'
      exact flush_empty (Function.update_self ..) slot'
  | detach names =>
      cases target.symm.trans names
      intro e slot
      change Function.update s.chan ch _ ch = some e at slot
      rw [Function.update_self] at slot
      cases slot
  | wait idle names slot =>
      exact awake.same (.wait idle names slot) ((Async.Same.refl s ch).setCaller _ _) nofun
  | @take t _ len waiting =>
      cases target.symm.trans (congrArg Caller.channel waiting)
      intro e' _ _
      right
      exact ⟨t, len, Function.update_self ..⟩
  | abandon waiting =>
      exact awake.same (.abandon waiting) ((Async.Same.refl s ch).setCaller _ _) nofun
  | read taken =>
      cases target.symm.trans (congrArg Caller.channel taken)
      unfold Async.readSection
      split
      · exact awake
      · dsimp only
        split
        · intro e' _ _
          left
          exact Function.update_self ..
        · rename_i slot drained
          apply awake_of_empty
          intro e' slot'
          cases slot.symm.trans slot'
          exact not_not.mp drained
  | flush idle names slot =>
      exact awake.same (.flush idle names slot) ((Async.Same.refl s ch).setCaller _ _) nofun
  | flushed flushing =>
      cases target.symm.trans (congrArg Caller.channel flushing)
      unfold Async.flushSection
      split
      · exact awake
      · apply awake_of_empty
        intro e' slot'
        exact flush_empty ‹_› slot'

/-! ## Every run -/

structure AsyncInv (s : Async ι τ) : Prop where
  apart : s.Apart
  holds : ∀ ch, s.Holds ch
  awake : ∀ ch, s.Awake ch

omit [DecidableEq ι] [DecidableEq τ] in
theorem Async.Starts.inv (starts : s.Starts) : AsyncInv s := by
  have none {ch : Channel} {e : ι} (slot : s.chan ch = some e) : False := by
    cases (starts.chan ch).symm.trans slot
  constructor
  · intro ch ch' e slot
    exact (none slot).elim
  · intro ch e slot
    exact (none slot).elim
  · intro ch e slot
    exact (none slot).elim

theorem AsyncInv.step {a : AsyncEvent ι τ} (inv : AsyncInv s) (distinct : Distinct s a)
    (move : Move s a s') : AsyncInv s' where
  apart := move.apart inv.apart distinct
  holds ch := by
    by_cases target : s.target a = some ch
    · exact move.holds target (inv.holds ch)
    · exact (inv.holds ch).same (move.same inv.apart distinct target)
  awake ch := by
    by_cases target : s.target a = some ch
    · exact move.awake target (inv.awake ch)
    · apply (inv.awake ch).same move (move.same inv.apart distinct target)
      rintro t len taken rfl
      exact target (congrArg Caller.channel taken)

theorem asyncInv (reachable : ((asyncDriver ι τ).guard Distinct).Reachable s) : AsyncInv s := by
  apply reachable.invariant
  · intro s starts
    exact starts.inv
  · rintro s a s' inv ⟨distinct, -, after⟩
    exact inv.step distinct (move_of_after after)

/-- A packet with a valid header, for a channel that is registered with `e`. -/
structure Async.Valid (s : Async ι τ) (packet : Bytes) (ch : Channel) (e : ι) : Prop where
  long : 8 < packet.length
  magic : (decode packet : AsyncCommand).magic = asyncMagic
  channel : (decode packet : AsyncCommand).channel.toNat = ch
  slot : s.chan ch = some e

omit [DecidableEq ι] [DecidableEq τ] in
theorem header_eq_some {packet : Bytes} : s.header packet = some (ch, e) ↔ s.Valid packet ch e := by
  unfold Async.header channelOf
  constructor
  · intro header
    split at header
    · rename_i long
      dsimp only at header
      split at header
      · obtain ⟨ch', names, mapped⟩ := Option.bind_eq_some_iff.mp header
        obtain ⟨e', slot, same⟩ := Option.map_eq_some_iff.mp mapped
        cases same
        split at names
        · cases names
          exact ⟨long, ‹_›, rfl, slot⟩
        · cases names
      · cases header
    · cases header
  · rintro ⟨long, magic, channel, slot⟩
    have bound : (decode packet : AsyncCommand).channel.toNat < maxAsyncChannels := channel ▸ ch.isLt
    have same : (⟨(decode packet : AsyncCommand).channel.toNat, bound⟩ : Channel) = ch := Fin.ext channel
    rw [if_pos (show packet.length > sizeof AsyncCommand from long)]
    simp [magic, bound, same, slot]

omit [DecidableEq τ] in
theorem fillAsync_of_malformed {packet : Bytes} (malformed : ∀ ch e, ¬s.Valid packet ch e) :
    s.fillAsync packet = s := by
  unfold Async.fillAsync
  split
  · exact absurd (header_eq_some.mp ‹_›) (malformed _ _)
  · rfl

omit [DecidableEq τ] in
theorem Async.Valid.accepted {packet : Bytes} (valid : s.Valid packet ch e) :
    (s.fillAsync packet).accepted ch = s.accepted ch ++ (packet.drop 8).take
      (min (packet.length - 8 : Int) (4096 - (s.endp e).size)).toNat := by
  rw [Async.fillAsync, header_eq_some.mpr valid]
  simp only [Async.store, Function.update_self, Async.fits, List.length_drop]
  have long := valid.long
  have size : ((packet.length - 8 : Nat) : Int) = packet.length - 8 := by omega
  rw [show sizeof AsyncCommand = 8 from rfl, size, min_def_lt]

omit [DecidableEq τ] in
theorem register_alloc (s : Async ι τ) (e : ι) :
    (∃ ch : Channel, asyncUser ≤ ch.val ∧ s.chan ch = none ∧
        s.usbAsyncRegister asyncAllocChan (some e) = (s.attach ch e, (ch.val : Int))) ∨
      (∀ ch : Channel, asyncUser ≤ ch.val → s.chan ch ≠ none) ∧
        s.usbAsyncRegister asyncAllocChan (some e) = (s, -1) := by
  have slot : s.slotFor asyncAllocChan = s.allocChan := if_pos rfl
  unfold Async.usbAsyncRegister
  rw [slot]
  cases found : s.allocChan with
  | some ch =>
      left
      have free := List.find?_some found
      rw [Bool.and_eq_true, decide_eq_true_iff, Option.isNone_iff_eq_none] at free
      exact ⟨ch, free.1, free.2, rfl⟩
  | none =>
      right
      refine ⟨?_, rfl⟩
      intro ch user empty
      have taken := List.find?_eq_none.mp found ch (List.mem_finRange ch)
      simp [user, empty] at taken

structure Async.RingOk (s : Async ι τ) (ch : Channel) (e : ι) : Prop where
  size : 0 ≤ (s.endp e).size ∧ (s.endp e).size ≤ 4096
  readPos : 0 ≤ (s.endp e).readPos ∧ (s.endp e).readPos < 4096
  writePos : 0 ≤ (s.endp e).writePos ∧ (s.endp e).writePos < 4096
  distance : (s.endp e).writePos = ((s.endp e).readPos + (s.endp e).size) % 4096
  order : s.delivered ch <+: s.accepted ch

omit [DecidableEq ι] [DecidableEq τ] in
theorem Async.Holds.ringOk (holds : s.Holds ch) (slot : s.chan ch = some e) : s.RingOk ch e := by
  obtain ⟨xs, record, fifo⟩ := holds e slot
  have size := fifo.size
  constructor
  · exact ⟨by omega, fifo.room⟩
  · exact fifo.start
  · rw [fifo.stop]
    exact ⟨Int.emod_nonneg _ (by decide), Int.emod_lt_of_pos _ (by decide)⟩
  · exact fifo.stop
  · rw [record]
    exact List.prefix_append _ _

theorem async_rings (reachable : ((asyncDriver ι τ).guard Distinct).Reachable s) :
    (∀ ch e, s.chan ch = some e → s.RingOk ch e) ∧
    (∀ packet ch e, s.Valid packet ch e →
      (s.fillAsync packet).accepted ch = s.accepted ch ++ (packet.drop 8).take
        (min (packet.length - 8 : Int) (4096 - (s.endp e).size)).toNat) ∧
    (∀ packet, (∀ ch e, ¬s.Valid packet ch e) → s.fillAsync packet = s) ∧
    (∀ a s', Distinct s a → s.after a = some s' → ∀ ch, s.target a ≠ some ch → s.Same s' ch) ∧
    ∀ e, (∃ ch : Channel, 4 ≤ ch.val ∧ s.chan ch = none ∧
        s.usbAsyncRegister asyncAllocChan (some e) = (s.attach ch e, (ch.val : Int))) ∨
      (∀ ch : Channel, 4 ≤ ch.val → s.chan ch ≠ none) ∧
        s.usbAsyncRegister asyncAllocChan (some e) = (s, -1) := by
  have inv := asyncInv reachable
  refine ⟨?_, ?_, ?_, ?_, register_alloc s⟩
  · intro ch e slot
    exact (inv.holds ch).ringOk slot
  · intro packet ch e valid
    exact valid.accepted
  · intro packet malformed
    exact fillAsync_of_malformed malformed
  · intro a s' distinct after ch other
    exact (move_of_after after).same inv.apart distinct other

theorem no_lost_wakeup (reachable : ((asyncDriver ι τ).guard Distinct).Reachable s)
    (slot : s.chan ch = some e) (data : 0 < (s.endp e).size) :
    (s.event ch = true ∨ ∃ t len, s.caller t = .taken ch len) ∧
    ∀ t len, s.caller t = .waiting ch len →
      (∃ s', s.after (.take t) = some s') ∨ ∃ t' len', s.caller t' = .taken ch len' := by
  have awake := (asyncInv reachable).awake ch e slot data
  refine ⟨awake, ?_⟩
  intro t len waiting
  apply awake.imp_left
  intro bit
  simp [Async.after, waiting, bit]

end

def asyncRun : List (AsyncEvent Unit Bool) :=
  [.register 4 (some ()), .read true 4 2, .read false 4 1,
    .fill (encode (⟨asyncMagic, 4⟩ : AsyncCommand) ++ [1, 2, 3]), .take true, .readSection true]

def channel4 : Channel := ⟨4, by decide⟩

def asyncRan : Async Unit Bool :=
  (System.exec (Async.attempt Distinct) asyncStart asyncRun).getD asyncStart

theorem asyncRan_reachable : ((asyncDriver Unit Bool).guard Distinct).Reachable asyncRan := by
  have ran : (System.exec (Async.attempt Distinct) asyncStart asyncRun).isSome = true := by decide +kernel
  obtain ⟨s, run⟩ := Option.isSome_iff_exists.mp ran
  rw [asyncRan, run]
  exact reachable_attempt asyncStart_starts run

theorem async_rings_run : asyncRan.delivered channel4 = [1, 2] ∧ asyncRan.RingOk channel4 () :=
  ⟨by decide +kernel, (async_rings asyncRan_reachable).1 channel4 () (by decide +kernel)⟩

theorem no_lost_wakeup_run : asyncRan.caller false = .waiting channel4 1 ∧
    (asyncRan.event channel4 = true ∨ ∃ t len, asyncRan.caller t = .taken channel4 len) :=
  ⟨by decide +kernel, (no_lost_wakeup asyncRan_reachable (e := ()) (by decide +kernel) (by decide +kernel)).1⟩

end Psplink.HostFs
