import Psplink.HostFs.Wire

/-!
# Exchanges

What the two sides of the link agree on, in terms of whole transfers. `Exchange` says what the
transfers of one use of the semaphore look like in the record of the link; `Phase` is how far one
has come, with the transfers that may come next in each direction.
-/

namespace Psplink.HostFs
open Psplink.Lib

/-! ## Commands and responses -/

def responseSize : HostFsCommand → Nat
  | .hello => sizeof HostFsCmd
  | .lseek => sizeof HostFsLseekResp
  | _ => sizeof HostFsResp

/-- The bytes that follow a command; a control command may carry a negative length. -/
def payloadLen (h : Bytes) : Nat := (headerOf h).extralen.toInt.toNat

def room (c : HostFsCommand) (h : Bytes) : Nat :=
  match c with
  | .read => (decode h : HostFsReadCmd).len.toNat
  | .dread => sizeof SceIoDirent
  | .getstat => sizeof SceIoStat
  | .ioctl => (decode h : HostFsIoctlCmd).outlen.toInt.toNat
  | .devctl => (decode h : HostFsDevctlCmd).outlen.toInt.toNat
  | _ => 0

def LengthsOk (c : HostFsCommand) (h : Bytes) : Prop :=
  match c with
  | .hello | .close | .lseek | .dclose | .dread => (headerOf h).extralen = 0
  | .read => (headerOf h).extralen = 0 ∧ 0 < (decode h : HostFsReadCmd).len.toInt ∧
      room c h ≤ hostfsMaxBlock
  | .write => 0 < (headerOf h).extralen.toNat ∧ (headerOf h).extralen.toNat ≤ hostfsMaxBlock
  | .openFile | .remove | .rmdir | .mkdir | .dopen | .getstat | .chstat | .rename | .chdir =>
      0 < (headerOf h).extralen.toNat ∧ (headerOf h).extralen.toNat ≤ hostfsPathmax
  | .ioctl => (headerOf h).extralen.toInt ≤ 64 * 1024 ∧ room c h ≤ 64 * 1024
  | .devctl => (headerOf h).extralen.toInt ≤ 64 * 1024 ∧ room c h ≤ 64 * 1024 ∧
      ((decode h : HostFsDevctlCmd).cmdno = devctlGetInfo → sizeof DevctlGetInfo ≤ room c h)
  | .bye => False

structure Command (c : HostFsCommand) (h : Bytes) : Prop where
  length : h.length = commandSize c
  magic : (headerOf h).magic = hostfsMagic
  command : (headerOf h).command = c.code
  lengths : LengthsOk c h

/-- No more bytes are read or written than the command asks for. -/
def ResultOk (c : HostFsCommand) (h : Bytes) (res : Word) : Prop :=
  match c with
  | .read => res.toInt ≤ room c h
  | .write => res.toInt ≤ (headerOf h).extralen.toNat
  | _ => True

structure Response (c : HostFsCommand) (h resp : Bytes) : Prop where
  length : resp.length = responseSize c
  magic : (headerOf resp).magic = hostfsMagic
  command : (headerOf resp).command = c.stampOf.code
  extralen : (headerOf resp).extralen.toNat ≤ room c h
  result : ResultOk c h (decode resp : HostFsResp).res

theorem Response.encode {α : Type} [Packed α] [Headed α] {c : HostFsCommand} {h : Bytes} {a : α}
    {extralen : Word} (size : sizeof α = responseSize c)
    (header : Headed.cmd a = ⟨hostfsMagic, c.stampOf.code, extralen⟩)
    (fits : extralen.toNat ≤ room c h)
    (result : ResultOk c h (decode (encode a) : HostFsResp).res) : Response c h (encode a) := by
  refine ⟨?_, ?_, ?_, ?_, result⟩ <;> simp only [headerOf_encode, header, Packed.length_encode]
  · exact size
  · exact fits

theorem Command.unique {c c' : HostFsCommand} {h : Bytes} (first : Command c h)
    (second : Command c' h) : c = c' := by
  have same : HostFsCommand.ofCode c.code = HostFsCommand.ofCode c'.code := by
    rw [← first.command, ← second.command]
  simpa using same

theorem payloadLen_eq {h : Bytes} {bound : Nat}
    (fits : (headerOf h).extralen.toNat ≤ bound) (small : bound < 2 ^ 31) :
    payloadLen h = (headerOf h).extralen.toNat := by
  have signed := BitVec.toInt_eq_toNat_cond (headerOf h).extralen
  unfold payloadLen
  split at signed <;> omega

theorem commandSize_bounds (c : HostFsCommand) :
    sizeof HostFsCmd ≤ commandSize c ∧ commandSize c ≤ 512 := by
  cases c <;> decide

theorem Command.room_le {c : HostFsCommand} {h : Bytes} (command : Command c h) :
    room c h ≤ hostfsMaxBlock := by
  have lengths := command.lengths
  cases c with
  | read => exact lengths.2.2
  | ioctl => exact lengths.2
  | devctl => exact lengths.2.1
  | dread => show 352 ≤ _; decide
  | getstat => show 88 ≤ _; decide
  | _ => exact Nat.zero_le _

/-! ## Phases -/

/-- How far an exchange has come: nothing sent; the payload of the command `h` is due; its
response is due; `left` bytes of response data are due; `left` bytes of bulk data are due. -/
inductive Phase
  | top
  | payload (h : Bytes)
  | response (h : Bytes)
  | data (h : Bytes) (left : Nat)
  | bulk (left : Nat)

def afterCommand (h : Bytes) : Phase := if payloadLen h = 0 then .response h else .payload h

def afterResponse (h : Bytes) (extralen : Nat) : Phase :=
  if extralen = 0 then .top else .data h extralen

def afterBulk (left : Nat) : Phase := if left = 0 then .top else .bulk left

inductive Sends : Phase → Bytes → Phase → Prop
  | command {c : HostFsCommand} {t : Bytes} (command : Command c t) : Sends .top t (afterCommand t)
  | async {t : Bytes} (magic : magicOf t = asyncMagic) (some : sizeof AsyncCommand < t.length)
      (fits : t.length ≤ 512) : Sends .top t .top
  | bulk {t : Bytes} (magic : magicOf t = bulkMagic) (length : t.length = sizeof BulkCommand)
      (some : 0 < (decode t : BulkCommand).size.toNat)
      (fits : (decode t : BulkCommand).size.toNat ≤ hostfsBulkMaxwrite) :
      Sends .top t (.bulk (decode t : BulkCommand).size.toNat)
  | payload {h t : Bytes} (length : t.length = payloadLen h) : Sends (.payload h) t (.response h)
  | block {left : Nat} {t : Bytes} (length : t.length = min hostfsMaxBlock left) :
      Sends (.bulk left) t (afterBulk (left - t.length))

def Expects : Phase → Nat → Prop
  | .payload h, size => size = payloadLen h
  | .bulk left, size => size = min hostfsMaxBlock left
  | _, _ => False

inductive Replies : Phase → Bytes → Phase → Prop
  | response {c : HostFsCommand} {h t : Bytes} (command : Command c h) (response : Response c h t) :
      Replies (.response h) t (afterResponse h (headerOf t).extralen.toNat)
  | data {h t : Bytes} {left : Nat} (length : t.length = left) : Replies (.data h left) t .top

def Awaits : Phase → Nat → Prop
  | .response h, size => ∃ c, Command c h ∧ size = responseSize c
  | .data _ left, size => size = left
  | _, _ => False

theorem Sends.expected {phase phase' : Phase} {t : Bytes} (sends : Sends phase t phase')
    (under : phase ≠ .top) : Expects phase t.length := by
  cases sends with
  | command | async | bulk => exact absurd rfl under
  | payload length => exact length
  | block length => exact length

theorem Replies.awaited {phase phase' : Phase} {t : Bytes} (replies : Replies phase t phase') :
    Awaits phase t.length := by
  cases replies with
  | response command response => exact ⟨_, command, response.length⟩
  | data length => exact length

theorem Expects.unique {phase : Phase} {size size' : Nat} (first : Expects phase size)
    (second : Expects phase size') : size = size' := by
  cases phase with
  | payload | bulk => exact first.trans second.symm
  | _ => exact first.elim

theorem Awaits.unique {phase : Phase} {size size' : Nat} (first : Awaits phase size)
    (second : Awaits phase size') : size = size' := by
  cases phase with
  | response h =>
      obtain ⟨c, command, rfl⟩ := first
      obtain ⟨c', command', rfl⟩ := second
      rw [command.unique command']
  | data h left => exact first.trans second.symm
  | _ => exact first.elim

/-! ## The record of the link -/

/-- A transfer as it happened: who sent or received it on the PSP and its bytes. On the way to the
PC, whether it is the first one since the thread took the semaphore and whether the PC read it at
the top of its loop; on the way to the PSP, the size of the request that received it and the room
there was for it. -/
inductive Transfer (ι : Type)
  | toPc (thread : ι) (first topLevel : Bool) (bytes : Bytes)
  | toPsp (thread : ι) (size room : Nat) (bytes : Bytes)

variable {ι : Type}

/-- A header is the first transfer of its exchange, and what the PC reads at the top of its loop. -/
def Transfer.header (i : ι) (bytes : Bytes) : Transfer ι := .toPc i true true bytes

/-- Everything else on the way to the PC is read by the handler of the header before it. -/
def Transfer.rest (i : ι) (bytes : Bytes) : Transfer ι := .toPc i false false bytes

inductive Payload (i : ι) (h : Bytes) : List (Transfer ι) → Prop
  | none (zero : payloadLen h = 0) : Payload i h []
  | some {t : Bytes} (positive : payloadLen h ≠ 0) (length : t.length = payloadLen h) :
      Payload i h [.rest i t]

/-- A response: received by a request of its size into a buffer that holds it. -/
inductive Responded (i : ι) (c : HostFsCommand) (h : Bytes) : Nat → Transfer ι → Prop
  | mk {resp : Bytes} {room : Nat} (response : Response c h resp) (fits : resp.length ≤ room) :
      Responded i c h (headerOf resp).extralen.toNat (.toPsp i resp.length room resp)

/-- The data that a response announces, exactly as long, into a buffer that holds it. -/
inductive Data (i : ι) : Nat → List (Transfer ι) → Prop
  | none : Data i 0 []
  | some {t : Bytes} {extralen inlen : Nat} (positive : extralen ≠ 0) (length : t.length = extralen)
      (fits : extralen ≤ inlen) : Data i extralen [.toPsp i extralen inlen t]

/-- Blocks of at most 64K that make up `left` bytes. -/
inductive Blocks (i : ι) : Nat → List (Transfer ι) → Prop
  | none : Blocks i 0 []
  | some {t : Bytes} {left : Nat} {more : List (Transfer ι)} (positive : t.length ≠ 0)
      (fits : t.length ≤ hostfsMaxBlock) (blocks : Blocks i left more) :
      Blocks i (t.length + left) (.rest i t :: more)

inductive Exchange (i : ι) : List (Transfer ι) → Prop
  | command {c : HostFsCommand} {h : Bytes} {payload data : List (Transfer ι)} {extralen : Nat}
      {response : Transfer ι} (command : Command c h) (sent : Payload i h payload)
      (responded : Responded i c h extralen response) (received : Data i extralen data) :
      Exchange i (.header i h :: (payload ++ response :: data))
  | async {t : Bytes} (magic : magicOf t = asyncMagic) (some : sizeof AsyncCommand < t.length)
      (fits : t.length ≤ 512) : Exchange i [.header i t]
  | bulk {t : Bytes} {blocks : List (Transfer ι)} (magic : magicOf t = bulkMagic)
      (length : t.length = sizeof BulkCommand)
      (sent : Blocks i (decode t : BulkCommand).size.toNat blocks) : Exchange i (.header i t :: blocks)

/-! ## Exchanges under way -/

/-- What the record shows of an exchange that has come to this phase. -/
inductive Begun (i : ι) : Phase → List (Transfer ι) → Prop
  | top : Begun i .top []
  | payload {c : HostFsCommand} {h : Bytes} (command : Command c h) (positive : payloadLen h ≠ 0) :
      Begun i (.payload h) [.header i h]
  | response {c : HostFsCommand} {h : Bytes} {payload : List (Transfer ι)} (command : Command c h)
      (sent : Payload i h payload) : Begun i (.response h) (.header i h :: payload)
  | data {c : HostFsCommand} {h : Bytes} {payload : List (Transfer ι)} {extralen : Nat}
      {response : Transfer ι} (command : Command c h) (sent : Payload i h payload)
      (responded : Responded i c h extralen response) (positive : extralen ≠ 0) :
      Begun i (.data h extralen) (.header i h :: (payload ++ [response]))
  | bulk {t : Bytes} {blocks : List (Transfer ι)} {left : Nat} (magic : magicOf t = bulkMagic)
      (length : t.length = sizeof BulkCommand) (positive : left ≠ 0)
      (sent : ∀ more, Blocks i left more →
        Blocks i (decode t : BulkCommand).size.toNat (blocks ++ more)) :
      Begun i (.bulk left) (.header i t :: blocks)

def Continues (i : ι) (phase : Phase) (record : List (Transfer ι)) : Prop :=
  Begun i phase record ∨ phase = .top ∧ Exchange i record

theorem begun_header {i : ι} {t : Bytes} {phase' : Phase} (sends : Sends .top t phase') :
    Continues i phase' [.header i t] := by
  cases sends with
  | command command =>
      unfold afterCommand
      split
      · exact .inl (.response command (.none ‹_›))
      · exact .inl (.payload command ‹_›)
  | async magic some fits => exact .inr ⟨rfl, .async magic some fits⟩
  | bulk magic length some fits => exact .inl (.bulk magic length (by omega) fun _ blocks => blocks)

theorem Begun.rest {i : ι} {t : Bytes} {phase phase' : Phase} {record : List (Transfer ι)}
    (begun : Begun i phase record) (sends : Sends phase t phase') (under : phase ≠ .top) :
    Continues i phase' (record ++ [.rest i t]) := by
  cases sends with
  | command | async | bulk => exact absurd rfl under
  | payload length =>
      cases begun with
      | payload command positive => exact .inl (.response command (.some positive length))
  | @block left t length =>
      cases begun with
      | @bulk t' blocks _ magic size positive sent =>
          have some : t.length ≠ 0 := by rw [length, hostfsMaxBlock]; omega
          have fits : t.length ≤ hostfsMaxBlock := by omega
          have part : t.length + (left - t.length) = left := by omega
          have sent : ∀ more, Blocks i (left - t.length) more →
              Blocks i (decode t' : BulkCommand).size.toNat (blocks ++ [.rest i t] ++ more) := by
            intro more next
            rw [List.append_assoc]
            exact sent _ (part ▸ .some some fits next)
          unfold afterBulk
          split
          · rename_i ended
            refine .inr ⟨rfl, .bulk magic size ?_⟩
            simpa using sent [] (ended ▸ .none)
          · exact .inl (.bulk magic size ‹_› sent)

theorem Begun.receive {i : ι} {t : Bytes} {room : Nat} {phase phase' : Phase}
    {record : List (Transfer ι)} (begun : Begun i phase record) (replies : Replies phase t phase')
    (fits : t.length ≤ room) :
    Continues i phase' (record ++ [.toPsp i t.length room t]) := by
  cases replies with
  | @response c h t command response =>
      cases begun with
      | response _ sent =>
          have responded : Responded i c h _ (.toPsp i t.length room t) := .mk response fits
          unfold afterResponse
          split
          · rename_i zero
            exact .inr ⟨rfl, .command command sent responded (zero ▸ .none)⟩
          · exact .inl (.data command sent responded ‹_›)
  | @data h t left length =>
      cases begun with
      | @data c _ payload extralen response command sent responded positive =>
          refine .inr ⟨rfl, ?_⟩
          have received : Data i t.length [.toPsp i t.length room t] :=
            .some (length ▸ positive) rfl fits
          subst length
          simpa using Exchange.command command sent responded received

/-! ## Exchanges can be finished -/

theorem Response.exists (c : HostFsCommand) (h : Bytes) :
    ∃ resp, Response c h resp ∧ (headerOf resp).extralen = 0 := by
  let header : HostFsCmd := ⟨hostfsMagic, c.stampOf.code, 0⟩
  have zero : (0 : Word).toNat ≤ room c h := Nat.zero_le _
  have nothing : ResultOk c h (decode (Packed.encode (⟨header, 0⟩ : HostFsResp)) : HostFsResp).res := by
    rw [Packed.decode_encode_self]
    cases c with
    | read | write => exact Int.natCast_nonneg _
    | _ => trivial
  cases c with
  | hello => exact ⟨_, .encode (a := header) rfl rfl zero trivial, by rw [headerOf_encode]; rfl⟩
  | lseek =>
      exact ⟨_, .encode (a := (⟨header, 0, 0⟩ : HostFsLseekResp)) rfl rfl zero trivial,
        by rw [headerOf_encode]; rfl⟩
  | _ =>
      exact ⟨_, .encode (a := (⟨header, 0⟩ : HostFsResp)) rfl rfl zero nothing,
        by rw [headerOf_encode]; rfl⟩

theorem Payload.exists (i : ι) (h : Bytes) : ∃ payload : List (Transfer ι), Payload i h payload := by
  by_cases zero : payloadLen h = 0
  · exact ⟨_, .none zero⟩
  · exact ⟨_, .some (t := List.replicate (payloadLen h) 0) zero (List.length_replicate ..)⟩

theorem Data.exists (i : ι) (extralen : Nat) : ∃ data : List (Transfer ι), Data i extralen data := by
  by_cases zero : extralen = 0
  · exact ⟨[], zero ▸ .none⟩
  · exact ⟨_, .some (t := List.replicate extralen 0) zero (List.length_replicate ..) (Nat.le_refl _)⟩

theorem Blocks.exists (i : ι) (left : Nat) : ∃ blocks : List (Transfer ι), Blocks i left blocks := by
  induction left with
  | zero => exact ⟨[], .none⟩
  | succ left ih =>
      obtain ⟨blocks, sent⟩ := ih
      have one := Blocks.some (t := [0]) (by decide) (by decide) sent
      exact ⟨_, Nat.add_comm left 1 ▸ one⟩

theorem Begun.exchange {i : ι} {phase : Phase} {record : List (Transfer ι)}
    (begun : Begun i phase record) : record = [] ∨ ∃ more, Exchange i (record ++ more) := by
  have respond (c : HostFsCommand) (h : Bytes) : ∃ response : Transfer ι, Responded i c h 0 response := by
    obtain ⟨resp, response, zero⟩ := Response.exists c h
    have responded : Responded i c h _ (.toPsp i resp.length resp.length resp) :=
      .mk response (Nat.le_refl _)
    rw [zero] at responded
    exact ⟨_, responded⟩
  cases begun with
  | top => exact .inl rfl
  | @payload c h command positive =>
      obtain ⟨response, responded⟩ := respond c h
      obtain ⟨payload, sent⟩ := Payload.exists i h
      exact .inr ⟨payload ++ [response], .command command sent responded .none⟩
  | @response c h payload command sent =>
      obtain ⟨response, responded⟩ := respond c h
      exact .inr ⟨[response], .command command sent responded .none⟩
  | @data c h payload extralen response command sent responded positive =>
      obtain ⟨data, received⟩ := Data.exists i extralen
      refine .inr ⟨data, ?_⟩
      simpa using Exchange.command command sent responded received
  | @bulk t blocks left magic length positive sent =>
      obtain ⟨more, next⟩ := Blocks.exists i left
      exact .inr ⟨more, .bulk magic length (sent more next)⟩

end Psplink.HostFs
