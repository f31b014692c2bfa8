import Psplink.HostFs.Calls
import Psplink.Lib.Streams

/-!
# Enumerations of directories

The directory handles of the daemon are streams of the names that `scandir` gave when they were
opened, whatever is opened, read and closed in between.
-/

namespace Psplink.HostFs
open Psplink.Lib

/-! ## Commands and what is seen of them -/

structure DirWorld where
  globals : Globals
  /-- What `scandir` gave last. -/
  scanned : List (CharArray 256)
  sent : List Bytes

/-- Writes to the PSP arrive, and `scandir` returns an `int`. -/
def directories : Prog.Contract Call Call.Answer DirWorld where
  pre _ _ := True
  post w c a w' := match c, a with
    | .load, g => g = w.globals ∧ w' = w
    | .modify f, _ => w' = { w with globals := f w.globals }
    | .usbBulkWrite data, ret => (0 : Int) ≤ ret ∧ w' = { w with sent := w.sent ++ [data] }
    | .scandir _, scan => scan.entries.length < 2 ^ 31 ∧ w' = { w with scanned := scan.entries }
    | _, _ => w' = w

inductive DirCommand
  | dopen (fsnum extralen : Word)
  | dread (did : Word)
  | dclose (did : Word)

def DirCommand.bytes : DirCommand → Bytes
  | .dopen fsnum extralen =>
      encode (⟨⟨hostfsMagic, HostFsCommand.dopen.code, extralen⟩, fsnum⟩ : HostFsDriveCmd)
  | .dread did => encode (⟨⟨hostfsMagic, HostFsCommand.dread.code, 0⟩, did⟩ : HostFsDidCmd)
  | .dclose did => encode (⟨⟨hostfsMagic, HostFsCommand.dclose.code, 0⟩, did⟩ : HostFsDidCmd)

abbrev DirEvent := StreamEvent Word (CharArray 256)

/-- What a command was, by what was sent for it. -/
def observe (scanned : List (CharArray 256)) (sent : List Bytes) : DirCommand → List DirEvent
  | .dopen .. =>
      match sent with
      | resp :: _ =>
          let res := (decode resp : HostFsResp).res
          if 0 ≤ res.toInt then [.opened res scanned] else []
      | [] => []
  | .dread did =>
      match sent with
      | resp :: payload =>
          let res := (decode resp : HostFsResp).res
          if 0 ≤ res.toInt then
            [.read did res.toNat (payload.head?.map fun dir => (decode dir : SceIoDirent).name)]
          else [.refused did]
      | [] => [.refused did]
  | .dclose did =>
      match sent with
      | resp :: _ => if (decode resp : HostFsResp).res = 0 then [.closed did] else [.refused did]
      | [] => [.refused did]

/-- The daemon as commands on directories come in, in any order. -/
def enumerating : System (Globals × List DirEvent) DirCommand where
  init s := s.1.openDirs = (fun _ => .cleared) ∧ s.2 = []
  step s c s' := ∃ ret w, Prog.Runs directories (dispatch c.bytes) ⟨s.1, [], []⟩ ret w ∧
    s' = (w.globals, s.2 ++ observe w.scanned w.sent c)

/-! ## The table as streams -/

def DirHandle.stream (dir : DirHandle) : Option (List (CharArray 256)) :=
  if dir.opened then some ((dir.pDir.drop dir.pos).map (·.name)) else none

def InDirs (did : Word) : Prop := 0 ≤ did.toInt ∧ did.toInt < maxDirs

instance (did : Word) : Decidable (InDirs did) := inferInstanceAs (Decidable (0 ≤ did.toInt ∧ did.toInt < maxDirs))

def streams (g : Globals) (did : Word) : Option (List (CharArray 256)) :=
  if InDirs did then (g.openDirs did.toInt.toNat).stream else none

/-- What `scandir` returns fits an `int`. -/
def Counted (g : Globals) : Prop := ∀ did, (g.openDirs did).pDir.length < 2 ^ 31

theorem streams_of_inDirs {g : Globals} {did : Word} (inside : InDirs did) :
    streams g did = (g.openDirs did.toInt.toNat).stream := if_pos inside

theorem setDir_openDirs (g : Globals) (did : Nat) (dir : DirHandle) :
    (g.setDir did dir).openDirs = Function.update g.openDirs did dir := rfl

theorem streams_setDir (g : Globals) {did : Word} (inside : InDirs did) (dir : DirHandle) :
    streams (g.setDir did.toInt.toNat dir) = Function.update (streams g) did dir.stream := by
  funext other
  by_cases same : other = did
  · subst same
    rw [Function.update_self, streams_of_inDirs inside, setDir_openDirs, Function.update_self]
  · rw [Function.update_of_ne same]
    unfold streams
    split
    · rename_i inside'
      have differ : other.toInt.toNat ≠ did.toInt.toNat := fun equal =>
        same (BitVec.eq_of_toInt_eq (by unfold InDirs at inside inside'; omega))
      rw [setDir_openDirs, Function.update_of_ne differ]
    · rfl

theorem Counted.setDir {g : Globals} (counted : Counted g) {did : Nat} {dir : DirHandle}
    (few : dir.pDir.length < 2 ^ 31) : Counted (g.setDir did dir) := by
  intro other
  by_cases same : other = did
  · rw [same, setDir_openDirs, Function.update_self]
    exact few
  · rw [setDir_openDirs, Function.update_of_ne same]
    exact counted other

theorem inDirs_ofNat {did : Nat} (inside : did < maxDirs) :
    InDirs (BitVec.ofNat 32 did) ∧ (BitVec.ofNat 32 did).toInt.toNat = did := by
  unfold maxDirs at inside
  have value : (BitVec.ofNat 32 did).toInt = did := by
    rw [BitVec.toInt_eq_toNat_of_lt (by rw [BitVec.toNat_ofNat]; omega), BitVec.toNat_ofNat, Nat.mod_eq_of_lt (by omega)]
  unfold InDirs maxDirs
  rw [value]
  exact ⟨by omega, Int.toNat_natCast did⟩

/-! ## Calls that leave the directories alone -/

def Call.KeepsDirs : Call → Prop
  | .modify _ | .usbBulkWrite _ | .scandir _ => False
  | _ => True

theorem wp_keepsDirs {α : Type} {p : Pc α} (keeps : p.Only Call.KeepsDirs) (w : DirWorld) :
    p.wp directories (fun _ w' => w' = w) w := by
  refine Prog.wp_of_only (I := fun w' => w' = w) keeps (fun _ _ _ _ => trivial) ?_ rfl
  intro w₁ c a w₂ keeps same answered
  subst same
  cases c
  case modify | usbBulkWrite | scandir => exact False.elim keeps
  case load => exact answered.2
  all_goals exact answered

theorem keepsDirs_drivePath (drive : Word) (path : Bytes) (dir : Bool) :
    (drivePath drive path dir).Only Call.KeepsDirs := .ask trivial fun _ => .ask trivial fun _ => .ret _

theorem keepsDirs_fillStat (path : Bytes) : (fillStat path).Only Call.KeepsDirs := by
  simp only [fillStat, ask_seq]
  refine .ask trivial fun found => ?_
  cases found with
  | error e => exact .ret _
  | ok st =>
      have time : ∀ t, (fillTime t).Only Call.KeepsDirs := fun t => .ask trivial fun _ => .ret _
      exact .bind (time _) fun _ => .bind (time _) fun _ => .bind (time _) fun _ => .ret _

theorem keepsDirs_fillStatIn (dirname name : Bytes) : (fillStatIn dirname name).Only Call.KeepsDirs := by
  unfold fillStatIn
  dsimp only
  split
  · split
    · exact .ret _
    · exact keepsDirs_fillStat _
  · split
    · exact .ret _
    · exact keepsDirs_fillStat _

/-- Entries that have been described keep their names. -/
theorem wp_fillDirents (fulldir : Bytes) (names : List (CharArray 256)) (w : DirWorld) :
    (fillDirents fulldir names).wp directories
      (fun filled w' => w' = w ∧ ∀ pDir, filled = some pDir → pDir.map (·.name) = names) w := by
  induction names with
  | nil => exact ⟨rfl, fun pDir same => by cases same; rfl⟩
  | cons name names ih =>
      refine (Prog.wp_bind _ _ _ _).mpr (Prog.wp_mono ?_ (wp_keepsDirs (keepsDirs_fillStatIn _ _) w))
      intro described w₁ same
      subst same
      cases described with
      | error res => exact ⟨rfl, fun _ none => by cases none⟩
      | ok stat =>
          refine (Prog.wp_bind _ _ _ _).mpr (Prog.wp_mono ?_ ih)
          intro more w₂ rest
          refine ⟨rest.1, fun pDir whole => ?_⟩
          obtain ⟨pDir', filled, rfl⟩ := Option.map_eq_some_iff.mp whole
          rw [List.map_cons, rest.2 pDir' filled]

/-! ## The three commands -/

theorem dirOpen_streams (drive : Word) (dirname : Bytes) {w : DirWorld} (counted : Counted w.globals) :
    (dirOpen drive dirname).wp directories (fun res w' => w'.sent = w.sent ∧ Counted w'.globals ∧
      if 0 ≤ res.toInt then Streams.Step (streams w.globals) (.opened res w'.scanned) (streams w'.globals)
      else streams w'.globals = streams w.globals) w := by
  have failed : ∀ (res : Word) (w' : DirWorld), res.toInt < 0 → w'.sent = w.sent → Counted w'.globals →
      streams w'.globals = streams w.globals → w'.sent = w.sent ∧ Counted w'.globals ∧
        if 0 ≤ res.toInt then Streams.Step (streams w.globals) (.opened res w'.scanned) (streams w'.globals)
        else streams w'.globals = streams w.globals := by
    intro res w' negative sent counted' same
    rw [if_neg (by omega)]
    exact ⟨sent, counted', same⟩
  simp only [dirOpen, ask_seq, change_seq]
  refine ⟨trivial, ?_⟩
  rintro g w₁ ⟨rfl, rfl⟩
  dsimp only
  cases free : freeDir w₁.globals with
  | none => exact failed _ _ (getError_negative _) rfl counted rfl
  | some did =>
      have closed := List.find?_some free
      have inside := List.mem_range.mp (List.mem_of_find?_eq_some free)
      obtain ⟨inDirs, index⟩ := inDirs_ofNat inside
      have unused : streams w₁.globals (BitVec.ofNat 32 did) = none := by
        rw [streams_of_inDirs inDirs, index, DirHandle.stream, if_neg (by simpa using closed)]
      refine (Prog.wp_bind _ _ _ _).mpr (Prog.wp_mono ?_ (wp_keepsDirs (keepsDirs_drivePath _ _ _) w₁))
      intro fulldir w₂ same
      subst same
      cases fulldir with
      | none => exact failed _ _ (getError_negative _) rfl counted rfl
      | some fulldir =>
          refine ⟨trivial, ?_⟩
          rintro _ w₃ rfl
          have cleared : streams (w₂.globals.setDir did .cleared) = streams w₂.globals := by
            have set := streams_setDir w₂.globals inDirs .cleared
            have empty : DirHandle.stream .cleared = streams w₂.globals (BitVec.ofNat 32 did) := unused.symm
            rw [index, empty, Function.update_eq_self] at set
            exact set
          have counted' : Counted (w₂.globals.setDir did .cleared) := counted.setDir (by decide)
          refine ⟨trivial, ?_⟩
          rintro scan w₄ ⟨few, rfl⟩
          dsimp only
          split
          · exact failed _ _ (getError_negative _) rfl counted' cleared
          · refine ⟨trivial, ?_⟩
            rintro room w₅ rfl
            dsimp only
            split
            · exact failed _ _ (by decide) rfl counted' cleared
            · refine (Prog.wp_bind _ _ _ _).mpr (Prog.wp_mono ?_ (wp_fillDirents fulldir scan.entries _))
              rintro filled w₆ ⟨rfl, names⟩
              cases filled with
              | none => exact failed _ _ (by decide) rfl counted' cleared
              | some pDir =>
                  refine ⟨trivial, ?_⟩
                  rintro _ w₇ rfl
                  have pDirNames := names pDir rfl
                  refine ⟨rfl, counted'.setDir ?_, ?_⟩
                  · rw [← pDirNames, List.length_map] at few
                    exact few
                  · rw [if_pos inDirs.1]
                    have set := streams_setDir (w₂.globals.setDir did .cleared) inDirs ⟨true, 0, pDir⟩
                    rw [index, cleared] at set
                    have stream : DirHandle.stream ⟨true, 0, pDir⟩ = some scan.entries := by
                      rw [DirHandle.stream, if_pos rfl, List.drop_zero, pDirNames]
                    rw [stream] at set
                    change Streams.Step (streams w₂.globals) (.opened (BitVec.ofNat 32 did) scan.entries)
                      (streams ((w₂.globals.setDir did .cleared).setDir did ⟨true, 0, pDir⟩))
                    rw [set]
                    exact .opened unused

theorem sent_resp (c : HostFsCommand) (res : Word) :
    (decode (encode (⟨respHeader c, res⟩ : HostFsResp)) : HostFsResp).res = res := by
  rw [Packed.decode_encode_self]

theorem dispatch_dopen (fsnum extralen : Word) {w : DirWorld} (counted : Counted w.globals) (unsent : w.sent = []) :
    (dispatch (DirCommand.dopen fsnum extralen).bytes).wp directories (fun _ w' => Counted w'.globals ∧
      Streams.Run (streams w.globals) (observe w'.scanned w'.sent (.dopen fsnum extralen)) (streams w'.globals)) w := by
  have silent : ∀ w' : DirWorld, w'.sent = [] → w'.globals = w.globals → Counted w'.globals ∧
      Streams.Run (streams w.globals) (observe w'.scanned w'.sent (.dopen fsnum extralen)) (streams w'.globals) := by
    intro w' none same
    rw [none, same]
    exact ⟨counted, .nil⟩
  have code : (headerOf (DirCommand.dopen fsnum extralen).bytes).command = HostFsCommand.dopen.code := by
    rw [DirCommand.bytes, headerOf_encode]
    rfl
  simp only [dispatch, code, HostFsCommand.ofCode_code, handleDopen, withPath, withPayload, usbBulkRead_seq]
  split
  · exact silent w unsent rfl
  split
  · exact silent w unsent rfl
  refine ⟨trivial, ?_⟩
  rintro got w₁ rfl
  dsimp only
  split
  · exact silent w₁ unsent rfl
  refine (Prog.wp_bind _ _ _ _).mpr (Prog.wp_mono ?_ (dirOpen_streams _ _ counted))
  rintro res w₂ ⟨sent, counted₂, opened⟩
  refine ⟨trivial, ?_⟩
  rintro ret w₃ ⟨-, rfl⟩
  refine ⟨counted₂, ?_⟩
  simp only [sent, unsent, List.nil_append, observe, sent_resp]
  split
  · rename_i positive
    rw [if_pos positive] at opened
    exact .cons opened .nil
  · rename_i negative
    rw [if_neg negative] at opened
    rw [opened]
    exact .nil

theorem streams_of_not_opened {g : Globals} {did : Word} (closed : InDirs did → (g.openDirs did.toInt.toNat).opened ≠ true) :
    streams g did = none := by
  unfold streams
  split
  · rename_i inside
    rw [DirHandle.stream, if_neg (closed inside)]
  · rfl

/-- What `nextDirent` answers, as an event. -/
theorem nextDirent_streams (did : Word) {w : DirWorld} (counted : Counted w.globals) :
    (nextDirent did.toInt).wp directories (fun r w' => w'.sent = w.sent ∧ Counted w'.globals ∧
      Streams.Step (streams w.globals)
        (if 0 ≤ r.1.toInt then .read did r.1.toNat (r.2.map (·.name)) else .refused did) (streams w'.globals) ∧
      (r.1.toInt < 0 → r.2 = none)) w := by
  simp only [nextDirent, ask_seq, change_seq]
  split
  · rename_i inside
    have inDirs : InDirs did := inside
    refine ⟨trivial, ?_⟩
    rintro g w₁ ⟨rfl, rfl⟩
    dsimp only
    split
    · rename_i opened
      have stream : streams w₁.globals did =
          some (((w₁.globals.openDirs did.toInt.toNat).pDir.drop (w₁.globals.openDirs did.toInt.toNat).pos).map (·.name)) := by
        rw [streams_of_inDirs inDirs, DirHandle.stream, if_pos opened]
      have few := counted did.toInt.toNat
      have set := streams_setDir w₁.globals inDirs { w₁.globals.openDirs did.toInt.toNat with
        pos := (w₁.globals.openDirs did.toInt.toNat).pos + 1 }
      generalize w₁.globals.openDirs did.toInt.toNat = dir at *
      cases next : dir.pDir[dir.pos]? with
      | some dirent =>
          obtain ⟨there, rfl⟩ := List.getElem?_eq_some_iff.mp next
          have left : dir.pDir.length - dir.pos = (dir.pDir.drop (dir.pos + 1)).length + 1 := by
            rw [List.length_drop]
            omega
          have value : (BitVec.ofNat 32 (dir.pDir.length - dir.pos)).toNat = dir.pDir.length - dir.pos := by
            rw [BitVec.toNat_ofNat]
            omega
          have positive : 0 ≤ (BitVec.ofNat 32 (dir.pDir.length - dir.pos)).toInt := by
            rw [BitVec.toInt_eq_toNat_of_lt (by omega)]
            omega
          refine ⟨trivial, ?_⟩
          rintro _ w₂ rfl
          refine ⟨rfl, counted.setDir few, ?_, fun negative => absurd positive (Int.not_le.mpr negative)⟩
          have stream' : DirHandle.stream { dir with pos := dir.pos + 1 } =
              some ((dir.pDir.drop (dir.pos + 1)).map (·.name)) := if_pos opened
          rw [List.drop_eq_getElem_cons there, List.map_cons] at stream
          have step := Streams.Step.next stream
          rw [List.length_map, ← left] at step
          rw [if_pos positive, value]
          rw [stream'] at set
          rw [← set] at step
          exact step
      | none =>
          have past := List.getElem?_eq_none_iff.mp next
          rw [List.drop_eq_nil_of_le past, List.map_nil] at stream
          exact ⟨rfl, counted, .done stream, fun _ => rfl⟩
    · rename_i closed
      exact ⟨rfl, counted, .refused (streams_of_not_opened fun _ => closed), fun _ => rfl⟩
  · rename_i outside
    exact ⟨rfl, counted, .refused (if_neg outside), fun _ => rfl⟩

theorem dispatch_dread (did : Word) {w : DirWorld} (counted : Counted w.globals) (unsent : w.sent = []) :
    (dispatch (DirCommand.dread did).bytes).wp directories (fun _ w' => Counted w'.globals ∧
      Streams.Run (streams w.globals) (observe w'.scanned w'.sent (.dread did)) (streams w'.globals)) w := by
  have code : (headerOf (DirCommand.dread did).bytes).command = HostFsCommand.dread.code := by
    rw [DirCommand.bytes, headerOf_encode]
    rfl
  have size : (DirCommand.dread did).bytes.length = sizeof HostFsDidCmd := by
    rw [DirCommand.bytes, Packed.length_encode]
  have field : (decode (DirCommand.dread did).bytes : HostFsDidCmd).did = did := by
    rw [DirCommand.bytes, Packed.decode_encode_self]
  simp only [dispatch, code, HostFsCommand.ofCode_code, handleDread, size, field, ne_eq, not_true_eq_false, ↓reduceIte]
  refine (Prog.wp_bind _ _ _ _).mpr (Prog.wp_mono ?_ (nextDirent_streams did counted))
  rintro ⟨res, dirent⟩ w₁ ⟨sent, counted₁, step, refusal⟩
  simp only [replyWith, usbBulkWrite_seq]
  refine ⟨trivial, ?_⟩
  rintro ret w₂ ⟨arrived, rfl⟩
  dsimp only
  rw [if_neg (by omega)]
  cases dirent with
  | none =>
      rw [if_neg (by simp)]
      refine ⟨counted₁, ?_⟩
      simp only [sent, unsent, List.nil_append, observe, Packed.decode_encode_self, List.head?_nil, Option.map_none]
      dsimp only at step
      split
      · rename_i positive
        rw [if_pos positive] at step
        exact .cons step .nil
      · rename_i negative
        rw [if_neg negative] at step
        exact .cons step .nil
  | some dirent =>
      have positive : 0 ≤ res.toInt := by
        by_contra negative
        cases refusal (by simpa using negative)
      have length : (encode dirent).length = sizeof SceIoDirent := Packed.length_encode dirent
      rw [if_pos (by rw [Option.elim_some, length]; decide)]
      refine ⟨trivial, ?_⟩
      rintro ret' w₃ ⟨-, rfl⟩
      refine ⟨counted₁, ?_⟩
      rw [if_pos positive] at step
      simp only [sent, unsent, List.nil_append, List.cons_append, observe, Packed.decode_encode_self, List.head?_cons,
        Option.map_some, Option.elim_some]
      rw [if_pos positive]
      exact .cons step .nil

theorem dirClose_streams (did : Word) {w : DirWorld} (counted : Counted w.globals) :
    (dirClose did.toInt).wp directories (fun res w' => w'.sent = w.sent ∧ Counted w'.globals ∧
      Streams.Step (streams w.globals) (if res = 0 then .closed did else .refused did) (streams w'.globals)) w := by
  simp only [dirClose, ask_seq, change_seq]
  split
  · rename_i inside
    have inDirs : InDirs did := inside
    refine ⟨trivial, ?_⟩
    rintro g w₁ ⟨rfl, rfl⟩
    dsimp only
    split
    · rename_i opened
      have stream := streams_of_inDirs (g := w₁.globals) inDirs
      rw [DirHandle.stream, if_pos opened] at stream
      refine ⟨trivial, ?_⟩
      rintro _ w₂ rfl
      have set := streams_setDir w₁.globals inDirs .cleared
      have step := Streams.Step.closed stream
      have empty : DirHandle.stream .cleared = none := rfl
      rw [empty] at set
      rw [← set] at step
      exact ⟨rfl, counted.setDir (by decide), step⟩
    · rename_i closed
      exact ⟨rfl, counted, .refused (streams_of_not_opened fun _ => closed)⟩
  · rename_i outside
    exact ⟨rfl, counted, .refused (if_neg outside)⟩

theorem dispatch_dclose (did : Word) {w : DirWorld} (counted : Counted w.globals) (unsent : w.sent = []) :
    (dispatch (DirCommand.dclose did).bytes).wp directories (fun _ w' => Counted w'.globals ∧
      Streams.Run (streams w.globals) (observe w'.scanned w'.sent (.dclose did)) (streams w'.globals)) w := by
  have code : (headerOf (DirCommand.dclose did).bytes).command = HostFsCommand.dclose.code := by
    rw [DirCommand.bytes, headerOf_encode]
    rfl
  have size : (DirCommand.dclose did).bytes.length = sizeof HostFsDidCmd := by
    rw [DirCommand.bytes, Packed.length_encode]
  have field : (decode (DirCommand.dclose did).bytes : HostFsDidCmd).did = did := by
    rw [DirCommand.bytes, Packed.decode_encode_self]
  simp only [dispatch, code, HostFsCommand.ofCode_code, handleDclose, size, field, ne_eq, not_true_eq_false, ↓reduceIte]
  refine (Prog.wp_bind _ _ _ _).mpr (Prog.wp_mono ?_ (dirClose_streams did counted))
  rintro res w₁ ⟨sent, counted₁, step⟩
  refine ⟨trivial, ?_⟩
  rintro ret w₂ ⟨-, rfl⟩
  refine ⟨counted₁, ?_⟩
  simp only [sent, unsent, List.nil_append, observe, sent_resp]
  split
  · rename_i done
    rw [if_pos done] at step
    exact .cons step .nil
  · rename_i failed
    rw [if_neg failed] at step
    exact .cons step .nil

/-! ## Every interleaving -/

/-- What has been seen of the handles is a run of streams. -/
theorem streams_of_reachable {s : Globals × List DirEvent} (reachable : enumerating.Reachable s) :
    Counted s.1 ∧ Streams.Run (fun _ => none) s.2 (streams s.1) := by
  induction reachable with
  | @init s start =>
      obtain ⟨cleared, silent⟩ := start
      have empty : Counted s.1 := fun did => by
        rw [cleared]
        exact Nat.two_pow_pos 31
      refine ⟨empty, ?_⟩
      have none : streams s.1 = fun _ => none := by
        funext did
        exact streams_of_not_opened fun _ => by
          rw [cleared]
          exact Bool.false_ne_true
      rw [silent, none]
      exact .nil
  | @step s s' c _ taken ih =>
      obtain ⟨counted, before⟩ := ih
      obtain ⟨ret, w, run, rfl⟩ := taken
      have serves : (dispatch c.bytes).wp directories (fun _ w' => Counted w'.globals ∧
          Streams.Run (streams s.1) (observe w'.scanned w'.sent c) (streams w'.globals)) ⟨s.1, [], []⟩ := by
        cases c with
        | dopen fsnum extralen => exact dispatch_dopen fsnum extralen (w := ⟨s.1, [], []⟩) counted rfl
        | dread did => exact dispatch_dread did (w := ⟨s.1, [], []⟩) counted rfl
        | dclose did => exact dispatch_dclose did (w := ⟨s.1, [], []⟩) counted rfl
      obtain ⟨counted', served⟩ := run.of_wp serves
      exact ⟨counted', before.append served⟩

/-- In every interleaving: from the dopen that a handle was given for to its dclose, its reads answer with
the entries that `scandir` gave, each once and in order, and with the number of those that were left; then
with 0. The handle is not given again and is refused to no read. -/
theorem enumerations {s : Globals × List DirEvent} (reachable : enumerating.Reachable s) {before during after : List DirEvent}
    {did : Word} {names : List (CharArray 256)} (history : s.2 = before ++ .opened did names :: (during ++ after))
    (unclosed : .closed did ∉ during) :
    Streams.reads did during = (List.range (Streams.reads did during).length).map (Streams.answer names) ∧
      (∀ names', .opened did names' ∉ during) ∧ .refused did ∉ during := by
  obtain ⟨-, run⟩ := streams_of_reachable reachable
  rw [history] at run
  obtain ⟨s₁, -, opening⟩ := run.split
  cases opening with
  | cons first rest =>
      obtain ⟨s₂, reading, -⟩ := rest.split
      cases first
      have only := reading.onlyRead (Function.update_self ..) unclosed
      exact ⟨only.reads, only.opened, only.refused⟩

/-! ### Two names -/

instance (n : Nat) : DecidableEq (CharArray n) := fun a b =>
  decidable_of_iff (a.text = b.text) ⟨CharArray.ext_text, congrArg CharArray.text⟩

def twoNames : List (CharArray 256) := [⟨ascii "a", by decide, by decide⟩, ⟨ascii "b", by decide, by decide⟩]

/-- A host with one directory. -/
def oneDirectory : (c : Call) → DirWorld → c.Answer × DirWorld
  | .usbBulkRead .., w => (delivered [slash, 0] [], w)
  | .usbBulkWrite data, w => ((data.length : Int), { w with sent := w.sent ++ [data] })
  | .load, w => (w.globals, w)
  | .modify f, w => ((), { w with globals := f w.globals })
  | .pathEnv, w => ((⟨true, fun _ => none⟩ : PathEnv), w)
  | .scandir _, w => ((⟨0, twoNames⟩ : Scan), { w with scanned := twoNames })
  | .malloc, w => (true, w)
  | .stat _, w => ((.ok ⟨.other, 0, 0, 0, 0, 0⟩ : Except Errno Stat), w)
  | c, w => (refused c, w)

theorem directories_oneDirectory (c : Call) (w : DirWorld) :
    directories.post w c (oneDirectory c w).1 (oneDirectory c w).2 := by
  cases c
  case load => exact ⟨rfl, rfl⟩
  case usbBulkWrite data => exact ⟨Int.natCast_nonneg data.length, rfl⟩
  case scandir => exact ⟨(by decide : twoNames.length < 2 ^ 31), rfl⟩
  all_goals exact rfl

/-- What is left of a command there. -/
def served (s : Globals × List DirEvent) (c : DirCommand) : Globals × List DirEvent :=
  let w := ((dispatch c.bytes).interp oneDirectory ⟨s.1, [], []⟩).2
  (w.globals, s.2 ++ observe w.scanned w.sent c)

theorem reachable_served {s : Globals × List DirEvent} (reachable : enumerating.Reachable s) (c : DirCommand) :
    enumerating.Reachable (served s c) :=
  reachable.step (a := c) ⟨_, _, Prog.runs_interp directories_oneDirectory _ _, rfl⟩

theorem enumerations_two : Streams.reads 0 [StreamEvent.read (0 : Word) 2 twoNames[0]?, .refused 1, .read 0 1 twoNames[1]?] =
    (List.range 2).map (Streams.answer twoNames) := by
  have start : enumerating.Reachable (zeroGlobals, []) := .init ⟨rfl, rfl⟩
  have run := reachable_served (reachable_served (reachable_served (reachable_served start
    (.dopen 0 2)) (.dread 0)) (.dclose 1)) (.dread 0)
  have history : (served (served (served (served (zeroGlobals, []) (.dopen 0 2)) (.dread 0)) (.dclose 1)) (.dread 0)).2 =
      [] ++ .opened 0 twoNames :: ([.read 0 2 twoNames[0]?, .refused 1, .read 0 1 twoNames[1]?] ++ []) := by
    decide +kernel
  exact (enumerations run history (by decide)).1

end Psplink.HostFs
