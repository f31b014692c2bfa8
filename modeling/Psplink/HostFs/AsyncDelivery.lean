import Psplink.HostFs.Connection

/-!
# Async transfers

The request `g_async_req` and its buffer have one owner at a time as long as the cable is attached again
only when the thread sleeps and has seen the end of the last request.
-/

namespace Psplink.HostFs
open Psplink.Lib

variable {ι τ : Type} [DecidableEq ι] [DecidableEq τ]

structure Tidy (w : UsbWorld ι τ) : Prop where
  single : w.armed = true → w.async = false
  size : w.async = true → w.recvsize = w.asyncData.length
  ended : w.async = true → w.refused = true ∨ w.retcode = 0 ∧ 0 < w.recvsize
  order : w.arrived = w.handed ++ w.unread
  live : w.connected = true → w.armed = true ∨ w.async = true ∨ w.refused = true

/-- Where the thread waits. -/
structure Waiting (w : UsbWorld ι τ) : Prop extends Tidy w where
  fresh : w.attach = true → w.armed = false ∧ w.async = false

/-- Within a turn. -/
structure Calm (w : UsbWorld ι τ) : Prop extends Tidy w where
  attach : w.attach = false

/-- The end of a request has been noticed and its bytes not yet passed on. -/
structure Fetched (w : UsbWorld ι τ) : Prop where
  attach : w.attach = false
  armed : w.armed = false
  async : w.async = false
  size : w.recvsize = w.asyncData.length
  ended : w.refused = true ∨ w.retcode = 0 ∧ 0 < w.recvsize
  order : w.arrived = w.handed ++ if w.retcode = 0 ∧ 0 < w.recvsize then [w.asyncData] else []

/-- They are about to be. -/
structure Received (len : Int) (w : UsbWorld ι τ) : Prop extends Fetched w where
  len : len = w.asyncData.length
  whole : w.arrived = w.handed ++ [w.asyncData]

/-- Nobody has the request. -/
structure Unused (w : UsbWorld ι τ) : Prop where
  attach : w.attach = false
  armed : w.armed = false
  async : w.async = false
  order : w.arrived = w.handed

structure Closed (w : UsbWorld ι τ) : Prop extends Unused w where
  off : w.connected = false

structure Submitted (w : UsbWorld ι τ) : Prop extends Calm w where
  on : w.armed = true ∨ w.async = true ∨ w.refused = true

omit [DecidableEq ι] [DecidableEq τ] in
theorem unread_of_clear {w : UsbWorld ι τ} (clear : w.async = false) : w.unread = [] := by
  simp [UsbWorld.unread, clear]

omit [DecidableEq ι] [DecidableEq τ] in
theorem Closed.calm {w : UsbWorld ι τ} (closed : Closed w) : Calm w where
  single _ := closed.async
  size set := by simp [closed.async] at set
  ended set := by simp [closed.async] at set
  order := by rw [unread_of_clear closed.async, List.append_nil, closed.order]
  live on := by simp [closed.off] at on
  attach := closed.attach

omit [DecidableEq ι] [DecidableEq τ] in
theorem Unused.submit {w : UsbWorld ι τ} (unused : Unused w) (taken : Bool) :
    Submitted (w.submit taken) where
  single _ := unused.async
  size set := absurd set (by simp [UsbWorld.submit, unused.async])
  ended set := absurd set (by simp [UsbWorld.submit, unused.async])
  order := by
    rw [unread_of_clear (w := w.submit taken) unused.async, List.append_nil]
    exact unused.order
  live _ := by cases taken <;> simp [UsbWorld.submit]
  attach := unused.attach
  on := by cases taken <;> simp [UsbWorld.submit]

omit [DecidableEq ι] [DecidableEq τ] in
theorem Tidy.complete {w : UsbWorld ι τ} (tidy : Tidy w) (armed : w.armed = true) (retcode : Word) (data : Bytes) :
    Tidy (w.complete retcode data) where
  single bad := by cases bad
  size _ := rfl
  ended _ := by
    have size : (0 : Int) < data.length ↔ data ≠ [] := by
      rw [Int.natCast_pos, List.length_pos_iff]
    simp only [UsbWorld.complete, size]
    grind
  order := by
    have before := tidy.order
    rw [unread_of_clear (tidy.single armed), List.append_nil] at before
    have size : (0 : Int) < data.length ↔ data ≠ [] := by
      rw [Int.natCast_pos, List.length_pos_iff]
    simp only [UsbWorld.complete, UsbWorld.unread, size, before, true_and]
    split
    · rfl
    · exact (List.append_nil _).symm
  live _ := Or.inr (Or.inl rfl)

theorem Tidy.beside {e : Beside ι τ} {w w' : UsbWorld ι τ} (tidy : Tidy w) (step : e.step w w') : Tidy w' := by
  cases e with
  | attach =>
      cases step
      exact ⟨tidy.single, tidy.size, tidy.ended, tidy.order, tidy.live⟩
  | detach =>
      cases step
      exact ⟨tidy.single, tidy.size, tidy.ended, tidy.order, tidy.live⟩
  | completed retcode data =>
      obtain ⟨armed, _, rfl⟩ := step
      exact tidy.complete armed retcode data
  | channel a =>
      obtain ⟨_, _, _, _, rfl⟩ := step
      exact ⟨tidy.single, tidy.size, tidy.ended, tidy.order, tidy.live⟩

/-! ## What the others leave alone -/

omit [DecidableEq ι] [DecidableEq τ] in
theorem Settled.not_attach {q : UsbCall} {w : UsbWorld ι τ} {e : Beside ι τ} (settled : Settled (some q) w e)
    (away : q ≠ .waitEvents) : e ≠ .attach := by
  intro attach
  exact away (Option.some.inj (settled attach).1)

theorem Beside.attach_eq {e : Beside ι τ} {w w' : UsbWorld ι τ} (other : e ≠ .attach) (step : e.step w w') :
    w'.attach = w.attach := by
  cases e with
  | attach => exact absurd rfl other
  | detach =>
      cases step
      rfl
  | completed retcode data =>
      obtain ⟨_, _, rfl⟩ := step
      rfl
  | channel a =>
      obtain ⟨_, _, _, _, rfl⟩ := step
      rfl

theorem Beside.idle {e : Beside ι τ} {w w' : UsbWorld ι τ} (other : e ≠ .attach) (armed : w.armed = false)
    (step : e.step w w') : ∃ detach channels, w' = { w with detach := detach, channels := channels } := by
  cases e with
  | attach => exact absurd rfl other
  | detach => exact ⟨_, _, step⟩
  | completed retcode data => exact absurd step.1 (by simp [armed])
  | channel a =>
      obtain ⟨_, _, channels, _, rfl⟩ := step
      exact ⟨_, channels, rfl⟩

theorem Waiting.beside {e : Beside ι τ} {w w' : UsbWorld ι τ} (waiting : Waiting w)
    (settled : Settled (some .waitEvents) w e) (step : e.step w w') : Waiting w' where
  toTidy := waiting.toTidy.beside step
  fresh := by
    cases e with
    | attach =>
        cases step
        exact fun _ => (settled rfl).2
    | detach =>
        cases step
        exact waiting.fresh
    | completed retcode data =>
        obtain ⟨armed, _, rfl⟩ := step
        intro attach
        exact absurd armed (by simp [(waiting.fresh attach).1])
    | channel a =>
        obtain ⟨_, _, _, _, rfl⟩ := step
        exact waiting.fresh

theorem Calm.beside {e : Beside ι τ} {w w' : UsbWorld ι τ} (calm : Calm w) (other : e ≠ .attach)
    (step : e.step w w') : Calm w' where
  toTidy := calm.toTidy.beside step
  attach := (Beside.attach_eq other step).trans calm.attach

theorem Submitted.beside {e : Beside ι τ} {w w' : UsbWorld ι τ} (submitted : Submitted w) (other : e ≠ .attach)
    (step : e.step w w') : Submitted w' where
  toCalm := submitted.toCalm.beside other step
  on := by
    cases e with
    | attach => exact absurd rfl other
    | detach =>
        cases step
        exact submitted.on
    | completed retcode data =>
        obtain ⟨_, _, rfl⟩ := step
        exact Or.inr (Or.inl rfl)
    | channel a =>
        obtain ⟨_, _, _, _, rfl⟩ := step
        exact submitted.on

theorem Fetched.beside {e : Beside ι τ} {w w' : UsbWorld ι τ} (fetched : Fetched w) (other : e ≠ .attach)
    (step : e.step w w') : Fetched w' := by
  obtain ⟨detach, channels, rfl⟩ := Beside.idle other fetched.armed step
  exact ⟨fetched.attach, fetched.armed, fetched.async, fetched.size, fetched.ended, fetched.order⟩

theorem Unused.beside {e : Beside ι τ} {w w' : UsbWorld ι τ} (unused : Unused w) (other : e ≠ .attach)
    (step : e.step w w') : Unused w' := by
  obtain ⟨detach, channels, rfl⟩ := Beside.idle other unused.armed step
  exact ⟨unused.attach, unused.armed, unused.async, unused.order⟩

theorem Closed.beside {e : Beside ι τ} {w w' : UsbWorld ι τ} (closed : Closed w) (other : e ≠ .attach)
    (step : e.step w w') : Closed w' where
  toUnused := closed.toUnused.beside other step
  off := (Beside.untouched step).connected.trans closed.off

/-! ## A turn -/

/-- What holds where the thread waits, submits the request and passes on its bytes. -/
def orderly (w : UsbWorld ι τ) : UsbCall → Prop
  | .waitEvents => Waiting w
  | .recvAsync => w.armed = false
  | .fillAsync len => w.armed = false ∧ len = w.asyncData.length ∧ w.arrived = w.handed ++ [w.asyncData]
  | _ => True

abbrev amidSettled : Prog.Contract UsbCall UsbCall.Answer (UsbWorld ι τ) := amid orderly Settled

theorem wp_amidSettled {P : UsbWorld ι τ → Prop} {α : Type} {q : UsbCall} {k : q.Answer → Usb α}
    {R : α → UsbWorld ι τ → Prop} {w : UsbWorld ι τ} (away : q ≠ .waitEvents) (holds : P w)
    (stable : ∀ e v v', P v → e ≠ .attach → Beside.step e v v' → P v') (allowed : ∀ v, P v → orderly v q)
    (after : ∀ v a v', P v → usbPost v q a v' → (k a).wp amidSettled R v') :
    (Prog.ask q k).wp amidSettled R w := by
  apply Prog.wp_among_ask holds _ allowed after
  rintro v v' holds ⟨e, settled, step⟩
  exact stable e v v' holds (settled.not_attach away) step

theorem submitted_setAyncreq {w : UsbWorld ι τ} (unused : Unused w) :
    setAyncreq.wp amidSettled (fun _ => Submitted) w := by
  refine wp_amidSettled (by simp) unused (fun _ _ _ holds => holds.beside) (fun _ _ => trivial) ?_
  rintro v₁ _ _ holds rfl
  have holds : Unused { v₁ with retcode := 0, recvsize := 0 } :=
    ⟨holds.attach, holds.armed, holds.async, holds.order⟩
  refine wp_amidSettled (by simp) holds (fun _ _ _ holds => holds.beside) (fun _ _ => trivial) ?_
  rintro v₂ _ _ holds rfl
  have holds : Unused { v₂ with async := false } := ⟨holds.attach, holds.armed, rfl, holds.order⟩
  refine wp_amidSettled (by simp) holds (fun _ _ _ holds => holds.beside) (fun _ holds => holds.armed) ?_
  rintro v₃ taken _ holds rfl
  exact holds.submit taken

omit [DecidableEq ι] [DecidableEq τ] in
theorem Fetched.calm {w : UsbWorld ι τ} (fetched : Fetched w) (bad : ¬ (w.retcode = 0 ∧ 0 < w.recvsize)) : Calm w where
  single _ := fetched.async
  size set := by simp [fetched.async] at set
  ended set := by simp [fetched.async] at set
  order := by rw [unread_of_clear fetched.async, fetched.order, if_neg bad]
  live _ := Or.inr (Or.inr (fetched.ended.resolve_right bad))
  attach := fetched.attach

theorem Received.beside {e : Beside ι τ} {len : Int} {w w' : UsbWorld ι τ} (received : Received len w)
    (other : e ≠ .attach) (step : e.step w w') : Received len w' := by
  obtain ⟨detach, channels, rfl⟩ := Beside.idle other received.armed step
  exact ⟨received.toFetched.beside other step, received.len, received.whole⟩

omit [DecidableEq τ] in
theorem Received.fill {len : Int} {w : UsbWorld ι τ} (received : Received len w) : Unused (w.fill len) where
  attach := received.attach
  armed := received.armed
  async := received.async
  order := by
    rw [UsbWorld.fill, received.len, Int.toNat_natCast, List.take_length]
    exact received.whole

theorem calm_asyncDone {w : UsbWorld ι τ} (fetched : Fetched w) :
    asyncDone.wp amidSettled (fun _ => Calm) w := by
  refine wp_amidSettled (by simp) fetched (fun _ _ _ holds => holds.beside) (fun _ _ => trivial) ?_
  rintro v _ v' holds ⟨rfl, rfl⟩
  refine Prog.wp_ite ?_ fun bad => holds.calm bad
  intro good
  have received : Received v'.recvsize v' := by
    have order := holds.order
    rw [if_pos good] at order
    exact ⟨holds, holds.size, order⟩
  refine wp_amidSettled (by simp) received (fun _ _ _ holds => holds.beside)
    (fun _ holds => ⟨holds.armed, holds.len, holds.whole⟩) ?_
  rintro u _ _ holds ⟨_, rfl⟩
  exact Prog.wp_mono (fun _ _ holds => holds.toCalm) (submitted_setAyncreq holds.fill)

theorem calm_disconnect {w : UsbWorld ι τ} (calm : Calm w) : disconnect.wp amidSettled (fun _ => Calm) w := by
  refine wp_amidSettled (by simp) calm (fun _ _ _ holds => holds.beside) (fun _ _ => trivial) ?_
  rintro v₁ _ _ holds rfl
  have off : Calm { v₁ with connected := false } :=
    ⟨⟨holds.single, holds.size, holds.ended, holds.order, fun on => absurd on (by simp)⟩, holds.attach⟩
  refine wp_amidSettled (by simp) off (fun _ _ _ holds => holds.beside) (fun _ _ => trivial) ?_
  rintro v₂ _ _ holds rfl
  exact ⟨⟨holds.single, holds.size, holds.ended, holds.order, holds.live⟩, holds.attach⟩

theorem closed_disconnect {w : UsbWorld ι τ} (unused : Unused w) :
    disconnect.wp amidSettled (fun _ => Closed) w := by
  refine wp_amidSettled (by simp) unused (fun _ _ _ holds => holds.beside) (fun _ _ => trivial) ?_
  rintro v₁ _ _ holds rfl
  have off : Closed { v₁ with connected := false } := ⟨⟨holds.attach, holds.armed, holds.async, holds.order⟩, rfl⟩
  refine wp_amidSettled (by simp) off (fun _ _ _ holds => holds.beside) (fun _ _ => trivial) ?_
  rintro v₂ _ _ holds rfl
  exact ⟨⟨holds.attach, holds.armed, holds.async, holds.order⟩, holds.off⟩

theorem closed_recorded : Recorded ((amidSettled : Prog.Contract UsbCall UsbCall.Answer (UsbWorld ι τ)).through UsbCall.link fun _ a => a) Closed
    UsbWorld.heard UsbWorld.said := by
  apply recorded
  · intro w q closed
    trivial
  · rintro w w' q closed ⟨e, settled, step⟩
    exact closed.beside (settled.not_attach (by simp)) step
  · intro w heard said closed
    exact ⟨⟨closed.attach, closed.armed, closed.async, closed.order⟩, closed.off⟩

theorem calm_connect {w : UsbWorld ι τ} (submitted : Submitted w) :
    (do Prog.call (UsbCall.setConnected true); Prog.call UsbCall.setConnect : Usb Unit).wp amidSettled (fun _ => Calm) w := by
  refine wp_amidSettled (by simp) submitted (fun _ _ _ holds => holds.beside) (fun _ _ => trivial) ?_
  rintro v₁ _ _ holds rfl
  have on : Calm { v₁ with connected := true } :=
    ⟨⟨holds.single, holds.size, holds.ended, holds.order, fun _ => holds.on⟩, holds.attach⟩
  refine wp_amidSettled (by simp) on (fun _ _ _ holds => holds.beside) (fun _ _ => trivial) ?_
  rintro v₂ _ _ holds rfl
  exact ⟨⟨holds.single, holds.size, holds.ended, holds.order, holds.live⟩, holds.attach⟩

theorem calm_attached {w : UsbWorld ι τ} (unused : Unused w) : attached.wp amidSettled (fun _ => Calm) w := by
  unfold attached
  refine (Prog.wp_bind _ _ _ _).2 (Prog.wp_mono ?_ (closed_disconnect unused))
  intro _ v₁ closed
  refine (Prog.wp_bind _ _ _ _).2 (Prog.wp_mono ?_ (Prog.wp_via (closed_recorded.readData 4 4 closed)))
  rintro magic v₂ ⟨closed, _⟩
  refine Prog.wp_ite ?_ (fun _ => closed.calm)
  intro _
  refine (Prog.wp_bind _ _ _ _).2 (Prog.wp_mono ?_ (Prog.wp_via (closed_recorded.sendHelloCmd closed)))
  rintro ok v₃ ⟨closed, _⟩
  refine Prog.wp_ite ?_ (fun _ => closed.calm)
  intro _
  refine (Prog.wp_bind _ _ _ _).2 (Prog.wp_mono ?_ (submitted_setAyncreq closed.toUnused))
  intro _ v₄ submitted
  exact calm_connect submitted

/-- What the wait leaves: a new connection excludes the end of a request. -/
structure Begins (result : UsbEvents) (w : UsbWorld ι τ) : Prop where
  ended : result.async = true → Fetched w
  calm : result.async = false → Calm w
  attached : result.attach = true → result.async = false ∧ Unused w

theorem calm_usbTurn {result : UsbEvents} {w : UsbWorld ι τ} (begins : Begins result w) :
    (usbTurn result).wp amidSettled (fun _ => Calm) w := by
  obtain ⟨attach, detach, async⟩ := result
  obtain ⟨ended, calm, attached⟩ := begins
  refine (Prog.wp_bind _ _ _ _).2 ?_
  cases attach with
  | false =>
      have requested : (onBit async asyncDone).wp amidSettled (fun _ => Calm) w :=
        wp_onBit (fun set => calm_asyncDone (ended set)) calm
      refine Prog.wp_mono ?_ requested
      intro _ v₁ holds
      exact (Prog.wp_bind _ _ _ _).2 (wp_onBit (fun _ => calm_disconnect holds) fun _ => holds)
  | true =>
      obtain ⟨none, unused⟩ := attached rfl
      obtain rfl : async = false := none
      refine (Prog.wp_bind _ _ _ _).2 ?_
      have alone : (onBit detach disconnect).wp amidSettled (fun _ => Unused) w :=
        wp_onBit (fun _ => Prog.wp_mono (fun _ _ holds => holds.toUnused) (closed_disconnect unused)) fun _ => unused
      refine Prog.wp_mono ?_ alone
      intro _ v₁ holds
      exact (Prog.wp_bind _ _ _ _).2 (calm_attached holds)

omit [DecidableEq ι] [DecidableEq τ] in
theorem Calm.waiting {w : UsbWorld ι τ} (calm : Calm w) : Waiting w where
  toTidy := calm.toTidy
  fresh set := by simp [calm.attach] at set

omit [DecidableEq ι] [DecidableEq τ] in
theorem Waiting.begins {w : UsbWorld ι τ} (waiting : Waiting w) : Begins ⟨w.attach, w.detach, w.async⟩ w.take where
  ended set := by
    have order := waiting.order
    simp only [UsbWorld.unread, show w.async = true from set, true_and] at order
    refine ⟨rfl, ?_, rfl, waiting.size set, waiting.ended set, order⟩
    cases armed : w.armed with
    | false => exact armed
    | true => exact absurd set (by simp [waiting.single armed])
  calm clear := by
    have order := waiting.order
    rw [unread_of_clear clear] at order
    refine ⟨⟨fun _ => rfl, fun bad => absurd bad (by simp [UsbWorld.take]), fun bad => absurd bad (by simp [UsbWorld.take]),
      ?_, ?_⟩, rfl⟩
    · rw [unread_of_clear (w := w.take) rfl]
      exact order
    · intro on
      have live := waiting.live on
      rw [show w.async = false from clear] at live
      exact live
  attached set := by
    obtain ⟨armed, async⟩ := waiting.fresh set
    have order := waiting.order
    rw [unread_of_clear async, List.append_nil] at order
    exact ⟨async, rfl, armed, rfl, order⟩

theorem calm_usbThread (running : Bool) {w : UsbWorld ι τ} (calm : running = true → Calm w) :
    (usbThread running).wp amidSettled (fun running w => running = true → Calm w) w := by
  cases running with
  | false => exact fun bad => absurd bad (by decide)
  | true =>
      refine Prog.wp_among_ask (calm rfl).waiting ?_ (fun _ holds => holds) ?_
      · rintro v v' holds ⟨e, settled, step⟩
        exact holds.beside settled step
      · intro v result v' holds answered
        cases result with
        | none => exact fun bad => absurd bad (by decide)
        | some result =>
            obtain ⟨_, rfl, rfl⟩ := answered
            exact Prog.wp_mono (S := fun running w => running = true → Calm w) (fun _ _ calm _ => calm)
              (calm_usbTurn holds.begins)

omit [DecidableEq ι] [DecidableEq τ] in
theorem UsbWorld.Starts.calm {w : UsbWorld ι τ} (starts : w.Starts) : Calm w where
  single _ := starts.async
  size set := by simp [starts.async] at set
  ended set := by simp [starts.async] at set
  order := by rw [unread_of_clear starts.async, starts.arrived, starts.handed]; rfl
  live on := by simp [starts.connected] at on
  attach := starts.attach

theorem async_delivery {c : Usb Bool × UsbWorld ι τ} (reachable : ((connection ι τ).guard
      fun c label => ∀ e, label = some e → Settled c.1.next c.2 e).Reachable c) :
    (c.1.next = some .waitEvents → c.2.arrived = c.2.handed ++ c.2.unread ∧
      (c.2.connected = true → c.2.armed = true ∨ c.2.async = true ∨ c.2.refused = true)) ∧
    (∀ len, c.1.next = some (.fillAsync len) → c.2.armed = false ∧ len = c.2.asyncData.length ∧
      c.2.arrived = c.2.handed ++ [c.2.asyncData]) ∧
    (c.1.next = some .recvAsync → c.2.armed = false) := by
  have now : c.1.wp amidSettled (fun running w => running = true → Calm w) c.2 :=
    Prog.among_invariant (C := usbSide orderly) (G := Settled) (I := fun running w => running = true → Calm w)
      (fun _ starts _ => starts.calm) (fun running _ holds => calm_usbThread running holds)
      (fun running w e w' holds settled step on =>
        (holds on).beside (fun attach => absurd (settled attach).1 (by simp)) step) reachable
  obtain ⟨p, w⟩ := c
  cases p with
  | ret a => refine ⟨?_, ?_, ?_⟩ <;> intros <;> contradiction
  | ask q k =>
      have here : orderly w q := Prog.among_pre now.1
      refine ⟨?_, ?_, ?_⟩
      · intro at_wait
        cases at_wait
        exact ⟨here.order, here.live⟩
      · intro len at_fill
        cases at_fill
        exact here
      · intro at_recv
        cases at_recv
        exact here

/-- A packet of one byte for channel 4 has arrived. -/
def packetWorld : UsbWorld Unit Unit := metWorld.complete 0 (encode (⟨asyncMagic, 4⟩ : AsyncCommand) ++ [7])

theorem packetWorld_reachable : ((connection Unit Unit).guard
    fun c label => ∀ e, label = some e → Settled c.1.next c.2 e).Reachable (usbThread true, packetWorld) := by
  have ended : (connection Unit Unit).step (usbThread true, metWorld)
      (some (.completed 0 (encode (⟨asyncMagic, 4⟩ : AsyncCommand) ++ [7]))) (usbThread true, packetWorld) :=
    ⟨rfl, by decide +kernel, by decide +kernel, rfl⟩
  refine metWorld_reachable.step ⟨?_, ended⟩
  rintro e same attach
  cases Option.some.inj (same.trans (congrArg some attach))

theorem async_delivery_packet : packetWorld.arrived.length = 1 ∧
    packetWorld.arrived = packetWorld.handed ++ packetWorld.unread :=
  ⟨by decide +kernel, ((async_delivery packetWorld_reachable).1 rfl).1⟩

end Psplink.HostFs
