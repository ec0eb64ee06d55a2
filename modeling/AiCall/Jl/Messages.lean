import AiCall.Kit.Footprint
import AiCall.Kit.Mailbox
import AiCall.Kit.Simulation
import Mathlib.Algebra.Group.Nat.Defs
import Mathlib.Data.List.Forall2

/-! The messages of `jl-ac791/audio_input2.c` in memory.  `_send_audio_msg` allocates a record and a
copy of the data, and posts a pointer to the record; `__audio_task` reads the record and frees both.
Any number of tasks call `_send_audio_msg`, each `malloc` and each post can fail, and the steps of
all tasks interleave. -/

namespace AiCall.Jl.Messages

open Kit

/-- `_AUDIO_CTRL_MSG`; `data` is a pointer, `none` for `NULL`. -/
structure CtrlMsg where
  cmd : Nat := 0
  data : Option Nat := none
  dataLen : Nat := 0
deriving DecidableEq, Repr

/-- What an address holds: a record, or a buffer. -/
inductive Block where
  | msg (r : CtrlMsg)
  | data (bytes : List UInt8)
deriving DecidableEq, Repr

/-- The arguments of `_send_audio_msg`; `data` is `none` for `NULL`.  The copy has a byte more than
the data, which `len + 1` has to count in 32 bits. -/
structure Args where
  msgid : Nat
  data : Option (List UInt8)
  len : Nat
  whole : ∀ bytes ∈ data, bytes.length = len
  room : len + 1 < 2 ^ 32
deriving DecidableEq

namespace Args

/-- `data && len`. -/
def copies (a : Args) : Bool := a.data.isSome && a.len != 0

def bytes (a : Args) : List UInt8 := a.data.getD []

theorem length_bytes (a : Args) (h : a.copies = true) : a.bytes.length = a.len := by
  unfold copies at h
  cases hd : a.data with
  | none => simp [hd] at h
  | some bytes =>
    rw [Args.bytes, hd]
    exact a.whole bytes hd

end Args

/-- The lines of `_send_audio_msg`, with its local `msg_data`. -/
inductive SendLine where
  | returned (ret : Int)  -- the last call has returned, or there was none
  | mallocMsg (a : Args)
  | clearMsg (a : Args) (msg : Nat)  -- `memset` and `msg_data->cmd = msgid`
  | mallocData (a : Args) (msg : Nat)  -- `msg_data->data = malloc(len + 1)`
  | fillData (a : Args) (msg : Nat)  -- `memset`, `memcpy` and `msg_data->data_len = len`
  | freeMsgAlone (msg : Nat)  -- there is no memory for the data
  | clearData (a : Args) (msg : Nat)  -- `msg_data->data = NULL`
  | post (a : Args) (msg : Nat)  -- `os_q_post`
  | freeData (msg : Nat) (err : Int)  -- the post has failed
  | freeMsg (msg : Nat) (err : Int)
deriving DecidableEq

/-- The lines of `__audio_task`, with its local `msg_data`. -/
inductive TaskLine where
  | pend  -- `os_q_pend`
  | handle (msg : Nat)  -- the switch on `msg_data->cmd`
  | freeData (msg : Nat)
  | freeMsg (msg : Nat)
deriving DecidableEq, Repr

/-- The heap, the next address that `malloc` returns, the queue, and every task.  `fault` is set
where a task reads, writes or frees memory that is not allocated. -/
structure State where
  heap : Heap Block := fun _ => .fresh
  next : Nat := 0
  senders : Nat → SendLine := fun _ => .returned 0
  queue : List Nat := []
  task : TaskLine := .pend
  fault : Bool := false

/-- One step of one task.  `ret` is the result of the call that the step makes, 0 for a success, and
`junk` what the memory that `malloc` returns holds. -/
inductive Action where
  | call (i : Nat) (a : Args)  -- task `i` calls `_send_audio_msg`
  | send (i : Nat) (ret : Int) (junk : Block)  -- the next step of that call
  | task (ret : Int)  -- the next step of `__audio_task`

namespace State

def msgAt (s : State) (m : Nat) : Option CtrlMsg :=
  match s.heap m with
  | .held (.msg r) => some r
  | _ => none

def dataAt (s : State) (d : Nat) : Option (List UInt8) :=
  match s.heap d with
  | .held (.data bytes) => some bytes
  | _ => none

def write (s : State) (x : Nat) (b : Block) : State :=
  { s with heap := Function.update s.heap x (.held b) }

def free (s : State) (x : Nat) : State := { s with heap := Function.update s.heap x .freed }

/-- `malloc` of a block, at the address `s.next`. -/
def malloc (s : State) (b : Block) : State := { s.write s.next b with next := s.next + 1 }

def goto (s : State) (i : Nat) (l : SendLine) : State :=
  { s with senders := Function.update s.senders i l }

def fail (s : State) : State := { s with fault := true }

/-- A step that goes through `msg_data`. -/
def through (s : State) (m : Nat) (f : CtrlMsg → State) : State :=
  match s.msgAt m with
  | none => s.fail
  | some r => f r

/-- `if (msg_data->data) free(msg_data->data)`. -/
def freeDataOf (s : State) (m : Nat) (f : State → State) : State :=
  s.through m fun r =>
    match r.data with
    | none => f s
    | some d =>
      match s.dataAt d with
      | none => s.fail
      | some _ => f (s.free d)

/-- `memset` over the buffer at `d`, and `memcpy` of `bytes` into it. -/
def fill (s : State) (d : Nat) (bytes : List UInt8) (f : State → State) : State :=
  match s.dataAt d with
  | none => s.fail
  | some old =>
    if old.length < bytes.length then s.fail
    else f (s.write d (.data (bytes ++ List.replicate (old.length - bytes.length) 0)))

def sendStep (cap : Nat) (s : State) (i : Nat) (ret : Int) (junk : Block) : Option State :=
  match s.senders i with
  | .returned _ => none
  | .mallocMsg a =>
    if ret = 0 then
      match junk with
      | .msg _ => some ((s.malloc junk).goto i (.clearMsg a s.next))
      | .data _ => none
    else some (s.goto i (.returned (-1)))
  | .clearMsg a m =>
    some (s.through m fun _ => (s.write m (.msg { cmd := a.msgid })).goto i
      (if a.copies then .mallocData a m else .clearData a m))
  | .mallocData a m =>
    if ret = 0 then
      match junk with
      | .msg _ => none
      | .data old =>
        if old.length = (a.len + 1) % 2 ^ 32 then
          some (s.through m fun r =>
            ((s.malloc junk).write m (.msg { r with data := some s.next })).goto i (.fillData a m))
        else none
    else
      some (s.through m fun r =>
        (s.write m (.msg { r with data := none })).goto i (.freeMsgAlone m))
  | .freeMsgAlone m => some (s.through m fun _ => (s.free m).goto i (.returned (-1)))
  | .fillData a m =>
    some (s.through m fun r =>
      match r.data with
      | none => s.fail
      | some d => s.fill d a.bytes fun u =>
        (u.write m (.msg { r with dataLen := a.len })).goto i (.post a m))
  | .clearData a m =>
    some (s.through m fun r => (s.write m (.msg { r with data := none })).goto i (.post a m))
  | .post _ m =>
    if ret = 0 then
      if s.queue.length < cap then
        some ({ s with queue := s.queue ++ [m] }.goto i (.returned 0))
      else none
    else some (s.goto i (.freeData m ret))
  | .freeData m err => some (s.freeDataOf m fun u => u.goto i (.freeMsg m err))
  | .freeMsg m err => some (s.through m fun _ => (s.free m).goto i (.returned err))

def taskStep (s : State) (ret : Int) : Option State :=
  match s.task with
  | .pend =>
    if ret = 0 then
      match s.queue with
      | [] => none
      | m :: queue => some { s with queue, task := .handle m }
    else some s
  | .handle m => some (s.through m fun _ => { s with task := .freeData m })
  | .freeData m => some (s.freeDataOf m fun u => { u with task := .freeMsg m })
  | .freeMsg m => some (s.through m fun _ => { s.free m with task := .pend })

def step (cap : Nat) (s : State) (a : Action) : Option State :=
  if s.fault then none
  else
    match a with
    | .call i args =>
      match s.senders i with
      | .returned _ => some (s.goto i (.mallocMsg args))
      | _ => none
    | .send i ret junk => s.sendStep cap i ret junk
    | .task ret => s.taskStep ret

end State

/-- The callers of `_send_audio_msg` and `__audio_task`, with a queue of `cap` pointers. -/
def messages (cap : Nat) : Machine State Action := ⟨{}, State.step cap⟩

/-! ### What is sent and what arrives -/

/-- A message without its addresses. -/
structure Content where
  cmd : Nat
  data : Option (List UInt8)
  dataLen : Nat
deriving DecidableEq, Repr

/-- What a call sends: the data, if there is any, with a NUL behind it. -/
def Args.content (a : Args) : Content :=
  if a.copies then ⟨a.msgid, some (a.bytes ++ [0]), a.len⟩ else ⟨a.msgid, none, 0⟩

/-- What the memory behind a pointer to a record holds. -/
def State.contentAt (s : State) (m : Nat) : Option Content :=
  match s.msgAt m with
  | none => none
  | some r =>
    match r.data with
    | none => some ⟨r.cmd, none, r.dataLen⟩
    | some d => (s.dataAt d).map fun bytes => ⟨r.cmd, some bytes, r.dataLen⟩

/-- What a step tells an observer: a successful post the message that the caller has asked for, and
the switch the message that it finds in memory. -/
def events (s : State) : Action → List (Mailbox.Event Content)
  | .call _ _ => []
  | .send i ret _ =>
    match s.senders i with
    | .post a _ => if ret = 0 then [.post a.content] else []
    | _ => []
  | .task ret =>
    match s.task with
    | .pend => if ret = 0 then [.pend] else []
    | .handle m => (s.contentAt m).toList.map .done
    | _ => []

/-! ### Who owns what -/

inductive Owner where
  | sender (i : Nat)
  | queued (m : Nat)  -- the record at `m`, while its address is in the queue
  | task
deriving DecidableEq

/-- The record at `m` and its buffer are at the addresses `l`, and hold `c`. -/
inductive Stored (h : Heap Block) (m : Nat) : Content → Set Nat → Prop
  | alone {cmd dataLen : Nat} (hm : h m = .held (.msg ⟨cmd, none, dataLen⟩)) :
      Stored h m ⟨cmd, none, dataLen⟩ {m}
  | copy {cmd d dataLen : Nat} {bytes : List UInt8}
      (hm : h m = .held (.msg ⟨cmd, some d, dataLen⟩)) (hd : h d = .held (.data bytes)) :
      Stored h m ⟨cmd, some bytes, dataLen⟩ {m, d}

/-- A record at `m`, whatever its fields hold, and nothing else. -/
def Bare (h : Heap Block) (m : Nat) (l : Set Nat) : Prop := l = {m} ∧ ∃ r, h m = .held (.msg r)

/-- What a caller owns at a line, and what is known of it. -/
def SendLine.Holds (h : Heap Block) : SendLine → Set Nat → Prop
  | .returned _, l | .mallocMsg _, l => l = ∅
  | .clearMsg _ m, l | .freeMsgAlone m, l | .freeMsg m _, l => Bare h m l
  | .mallocData a m, l => a.copies = true ∧ Stored h m ⟨a.msgid, none, 0⟩ l
  | .clearData a m, l => a.copies = false ∧ Stored h m ⟨a.msgid, none, 0⟩ l
  | .fillData a m, l =>
    a.copies = true ∧ ∃ old, old.length = a.len + 1 ∧ Stored h m ⟨a.msgid, some old, 0⟩ l
  | .post a m, l => Stored h m a.content l
  | .freeData m _, l => ∃ c, Stored h m c l

/-- The same for `__audio_task`, which is still to handle the message `handling`. -/
def TaskLine.Holds (h : Heap Block) (handling : Option Content) : TaskLine → Set Nat → Prop
  | .pend, l => handling = none ∧ l = ∅
  | .handle m, l => ∃ c, handling = some c ∧ Stored h m c l
  | .freeData m, l => handling = none ∧ ∃ c, Stored h m c l
  | .freeMsg m, l => handling = none ∧ Bare h m l

section Frame

variable {h h' : Heap Block} {m : Nat} {c : Content} {l : Set Nat}

theorem Stored.mem (hc : Stored h m c l) : m ∈ l := by
  cases hc with
  | alone => exact Set.mem_singleton m
  | copy => exact Set.mem_insert ..

theorem Stored.frame (hc : Stored h m c l) (hl : ∀ x ∈ l, h' x = h x) : Stored h' m c l := by
  have hm' := hl m hc.mem
  cases hc with
  | alone hm => exact .alone (hm'.trans hm)
  | copy hm hd => exact .copy (hm'.trans hm) ((hl _ (.inr rfl)).trans hd)

theorem Bare.frame (hb : Bare h m l) (hl : ∀ x ∈ l, h' x = h x) : Bare h' m l := by
  obtain ⟨rfl, r, hr⟩ := hb
  exact ⟨rfl, r, (hl m rfl).trans hr⟩

theorem SendLine.Holds.frame {line : SendLine} (hh : line.Holds h l) (hl : ∀ x ∈ l, h' x = h x) :
    line.Holds h' l := by
  cases line with
  | returned | mallocMsg => exact hh
  | clearMsg | freeMsgAlone | freeMsg => exact Bare.frame hh hl
  | mallocData | clearData => exact ⟨hh.1, hh.2.frame hl⟩
  | fillData =>
    obtain ⟨ha, old, hlen, hc⟩ := hh
    exact ⟨ha, old, hlen, hc.frame hl⟩
  | post => exact Stored.frame hh hl
  | freeData => exact hh.imp fun _ hc => hc.frame hl

theorem TaskLine.Holds.frame {line : TaskLine} {handling : Option Content}
    (hh : line.Holds h handling l) (hl : ∀ x ∈ l, h' x = h x) : line.Holds h' handling l := by
  cases line with
  | pend => exact hh
  | handle => exact hh.imp fun _ hc => ⟨hc.1, hc.2.frame hl⟩
  | freeData => exact ⟨hh.1, hh.2.imp fun _ hc => hc.frame hl⟩
  | freeMsg => exact ⟨hh.1, hh.2.frame hl⟩

end Frame

/-! ### What the functions find behind a pointer that they own -/

section Access

variable {s : State} {m : Nat} {c : Content} {l : Set Nat} {f : CtrlMsg → State}

theorem through_of_held {r : CtrlMsg} (hm : s.heap m = .held (.msg r)) : s.through m f = f r := by
  simp [State.through, State.msgAt, hm]

theorem Bare.through (hb : Bare s.heap m l) : ∃ r, s.through m f = f r := by
  obtain ⟨-, r, hr⟩ := hb
  exact ⟨r, through_of_held hr⟩

theorem Stored.through (hc : Stored s.heap m c l) : ∃ r, s.through m f = f r := by
  cases hc with
  | alone hm | copy hm _ => exact ⟨_, through_of_held hm⟩

theorem Stored.contentAt (hc : Stored s.heap m c l) : s.contentAt m = some c := by
  cases hc with
  | alone hm => simp [State.contentAt, State.msgAt, hm]
  | copy hm hd => simp [State.contentAt, State.msgAt, State.dataAt, hm, hd]

theorem Stored.alone_inv {cmd dataLen : Nat} (hc : Stored s.heap m ⟨cmd, none, dataLen⟩ l) :
    s.heap m = .held (.msg ⟨cmd, none, dataLen⟩) ∧ l = {m} := by
  cases hc with
  | alone hm => exact ⟨hm, rfl⟩

/-- After `if (msg_data->data) free(msg_data->data)` there is only the record. -/
theorem Stored.freeDataOf {g : State → State} (hc : Stored s.heap m c l)
    (hl : ∀ x ∈ l, s.heap.Allocated x) :
    ∃ h', s.freeDataOf m g = g { s with heap := h' } ∧ s.heap.Change l h' {m} ∧ Bare h' m {m} ∧
      ∀ x, s.heap x = .fresh → h' x = .fresh := by
  cases hc with
  | alone hm =>
    refine ⟨s.heap, ?_, .refl hl, ⟨rfl, _, hm⟩, fun _ => id⟩
    rw [State.freeDataOf, through_of_held hm]
  | copy hm hd =>
    rename_i cmd d dataLen bytes
    have hne : m ≠ d := by
      rintro rfl
      rw [hm] at hd
      cases hd
    have hrest : ({m, d} : Set Nat) \ {d} = {m} := Set.insert_sdiff_eq_singleton hne
    refine ⟨Function.update s.heap d .freed, ?_, hrest ▸ .free hl (.inr rfl), ⟨rfl,
      ⟨cmd, some d, dataLen⟩, ?_⟩, ?_⟩
    · rw [State.freeDataOf, through_of_held hm]
      simp only [State.dataAt, hd]
      rfl
    · rwa [Function.update_of_ne hne]
    · intro x hx
      have hxd : x ≠ d := by
        rintro rfl
        rw [hx] at hd
        cases hd
      rwa [Function.update_of_ne hxd]

end Access

/-! ### The invariant -/

theorem forall₂_imp {α β : Type*} {R S : α → β → Prop} {l : List α} {k : List β}
    (h : List.Forall₂ R l k) (hS : ∀ x ∈ l, ∀ y, R x y → S x y) : List.Forall₂ S l k := by
  obtain ⟨hlen, hz⟩ := List.forall₂_iff_zip.mp h
  exact List.forall₂_iff_zip.mpr
    ⟨hlen, fun hxy => hS _ (List.of_mem_zip hxy).1 _ (hz hxy)⟩

/-- The state of the machine, the messages `b` in its queue and task, and who owns what. -/
structure Holding {cap : Nat} (s : State) (b : Mailbox Content cap) (own : Owner → Set Nat) :
    Prop where
  noFault : s.fault = false
  owned : s.heap.Owned own
  fresh : ∀ x, s.next ≤ x → s.heap x = .fresh
  senders : ∀ i, (s.senders i).Holds s.heap (own (.sender i))
  queue : List.Forall₂ (fun m c => Stored s.heap m c (own (.queued m))) s.queue b.queue
  nodup : s.queue.Nodup
  rest : ∀ m ∉ s.queue, own (.queued m) = ∅
  task : s.task.Holds s.heap b.handling (own .task)

namespace Holding

variable {cap : Nat} {s s' : State} {b : Mailbox Content cap} {own : Owner → Set Nat}

theorem init : Holding {} (.empty : Mailbox Content cap) fun _ => ∅ where
  noFault := rfl
  owned := .empty fun x hx => by
    obtain ⟨r, hr⟩ := hx
    cases hr
  fresh _ _ := rfl
  senders _ := rfl
  queue := .nil
  nodup := .nil
  rest _ _ := rfl
  task := ⟨rfl, rfl⟩

variable (H : Holding s b own)
include H

theorem lt_next {x : Nat} (hx : s.heap.Allocated x) : x < s.next := by
  by_contra hn
  obtain ⟨r, hr⟩ := hx
  rw [H.fresh x (by omega)] at hr
  cases hr

/-- A write, or a release, of an allocated address leaves the fresh ones fresh. -/
theorem fresh_update {x : Nat} {k : Cell Block} (hx : s.heap.Allocated x) :
    ∀ y, s.next ≤ y → Function.update s.heap x k y = .fresh := by
  intro y hy
  have hlt := H.lt_next hx
  rw [Function.update_of_ne (by omega)]
  exact H.fresh y hy

theorem queued_frame {o : Owner} {h' : Heap Block} {l : Set Nat}
    (hc : s.heap.Change (own o) h' l) (ho : ∀ m, o ≠ .queued m) :
    List.Forall₂ (fun m c => Stored h' m c (Function.update own o l (.queued m))) s.queue
      b.queue := by
  refine H.queue.imp fun m c hm => ?_
  have hne : Owner.queued m ≠ o := (ho m).symm
  rw [Function.update_of_ne hne]
  exact hm.frame fun x hx => H.owned.frame hc hne hx

/-- A caller goes on to a line, with a change of what it owns. -/
theorem sender {i : Nat} {line : SendLine} {h' : Heap Block} {n : Nat} {l : Set Nat}
    (hc : s.heap.Change (own (.sender i)) h' l) (hf : ∀ x, n ≤ x → h' x = .fresh)
    (hl : line.Holds h' l) :
    Holding { s with heap := h', next := n, senders := Function.update s.senders i line } b
      (Function.update own (.sender i) l) where
  noFault := H.noFault
  owned := H.owned.change hc
  fresh := hf
  senders j := by
    by_cases hj : j = i
    · subst hj
      show (Function.update s.senders j line j).Holds h' (Function.update own _ l _)
      rw [Function.update_self, Function.update_self]
      exact hl
    · have hne : Owner.sender j ≠ .sender i := fun e => hj (Owner.sender.inj e)
      show (Function.update s.senders i line j).Holds h' (Function.update own _ l _)
      rw [Function.update_of_ne hne, Function.update_of_ne hj]
      exact (H.senders j).frame fun x hx => H.owned.frame hc hne hx
  queue := H.queued_frame hc fun _ => Owner.noConfusion
  nodup := H.nodup
  rest m hm := (Function.update_of_ne Owner.noConfusion ..).trans (H.rest m hm)
  task := by
    have hne : Owner.task ≠ .sender i := Owner.noConfusion
    rw [Function.update_of_ne hne]
    exact H.task.frame fun x hx => H.owned.frame hc hne hx

/-- The task goes on to a line, with a change of what it owns, and keeps the queue. -/
theorem taskTo {line : TaskLine} {h' : Heap Block} {l : Set Nat} {b' : Mailbox Content cap}
    (hc : s.heap.Change (own .task) h' l) (hf : ∀ x, s.next ≤ x → h' x = .fresh)
    (hb : b'.queue = b.queue) (hl : line.Holds h' b'.handling l) :
    Holding { s with heap := h', task := line } b' (Function.update own .task l) where
  noFault := H.noFault
  owned := H.owned.change hc
  fresh := hf
  senders j := by
    have hne : Owner.sender j ≠ .task := Owner.noConfusion
    rw [Function.update_of_ne hne]
    exact (H.senders j).frame fun x hx => H.owned.frame hc hne hx
  queue := hb ▸ H.queued_frame hc fun _ => Owner.noConfusion
  nodup := H.nodup
  rest m hm := (Function.update_of_ne Owner.noConfusion ..).trans (H.rest m hm)
  task := by
    rw [Function.update_self]
    exact hl

/-- Without a change of the heap. -/
theorem senderTo {i : Nat} {line : SendLine} (hl : line.Holds s.heap (own (.sender i))) :
    Holding (s.goto i line) b own := by
  have hsame : s.heap.Change (own (.sender i)) s.heap (own (.sender i)) :=
    .refl (H.owned.held _)
  have H' := H.sender hsame H.fresh hl
  rwa [Function.update_eq_self] at H'

theorem notAllocated : ¬ s.heap.Allocated s.next := fun hx => Nat.lt_irrefl _ (H.lt_next hx)

theorem fresh_malloc {k : Cell Block} :
    ∀ y, s.next + 1 ≤ y → Function.update s.heap s.next k y = .fresh := by
  intro y hy
  rw [Function.update_of_ne (by omega)]
  exact H.fresh y (by omega)

/-- `malloc` of the record. -/
theorem mallocMsg {i : Nat} {a : Args} {r : CtrlMsg} (hown : own (.sender i) = ∅) :
    ∃ own', Holding ((s.malloc (.msg r)).goto i (.clearMsg a s.next)) b own' := by
  have hc := Heap.Change.alloc (r := Block.msg r) (H.owned.held (.sender i)) H.notAllocated
  have hl : insert s.next (own (.sender i)) = {s.next} := by
    rw [hown]
    exact LawfulSingleton.insert_empty_eq _
  exact ⟨_, H.sender hc H.fresh_malloc ⟨hl, r, Function.update_self ..⟩⟩

/-- A write to the record of a caller. -/
theorem writeMsg {i m : Nat} {r : CtrlMsg} {line : SendLine} (hm : m ∈ own (.sender i))
    (hl : line.Holds (Function.update s.heap m (.held (.msg r))) (own (.sender i))) :
    ∃ own', Holding ((s.write m (.msg r)).goto i line) b own' := by
  have halloc := H.owned.held (.sender i)
  exact ⟨_, H.sender (.write halloc hm) (H.fresh_update (halloc m hm)) hl⟩

/-- `free` of the record, when the caller has nothing else. -/
theorem freeMsg {i m : Nat} {ret : Int} (hb : Bare s.heap m (own (.sender i))) :
    ∃ own', Holding ((s.free m).goto i (.returned ret)) b own' := by
  have halloc := H.owned.held (.sender i)
  have hm : m ∈ own (.sender i) := hb.1 ▸ rfl
  have hl : own (.sender i) \ {m} = ∅ := by
    rw [hb.1]
    exact Set.eq_empty_of_forall_notMem fun x hx => hx.2 hx.1
  exact ⟨_, H.sender (.free halloc hm) (H.fresh_update (halloc m hm)) hl⟩

/-- `malloc` of the buffer, and the write of its address to the record. -/
theorem mallocData {i m cmd : Nat} {old : List UInt8} {line : SendLine}
    (hs : Stored s.heap m ⟨cmd, none, 0⟩ (own (.sender i)))
    (hl : ∀ h' l, Stored h' m ⟨cmd, some old, 0⟩ l → line.Holds h' l) :
    ∃ own', Holding (((s.malloc (.data old)).write m
      (.msg { cmd, data := some s.next })).goto i line) b own' := by
  have hown := hs.alone_inv.2
  have halloc := H.owned.held (.sender i)
  have hlt := H.lt_next (halloc m hs.mem)
  let h₁ := Function.update s.heap s.next (.held (Block.data old))
  let h₂ := Function.update h₁ m (.held (.msg { cmd, data := some s.next }))
  have hc₁ : s.heap.Change (own (.sender i)) h₁ (insert s.next (own (.sender i))) :=
    .alloc halloc H.notAllocated
  have hc₂ : s.heap.Change (own (.sender i)) h₂ (insert s.next (own (.sender i))) :=
    hc₁.trans (.write hc₁.held (.inr hs.mem))
  have hf : ∀ x, s.next + 1 ≤ x → h₂ x = .fresh := by
    intro x hx
    show Function.update h₁ m _ x = _
    rw [Function.update_of_ne (by omega)]
    exact H.fresh_malloc x hx
  have hstored : Stored h₂ m ⟨cmd, some old, 0⟩ (insert s.next (own (.sender i))) := by
    have hd : h₂ s.next = .held (.data old) := by
      show Function.update h₁ m _ s.next = _
      rw [Function.update_of_ne (by omega)]
      exact Function.update_self ..
    rw [hown, Set.pair_comm]
    exact .copy (Function.update_self ..) hd
  exact ⟨_, H.sender hc₂ hf (hl _ _ hstored)⟩

/-- `memset` and `memcpy` into the buffer, and the write of `data_len`. -/
theorem fillData {i m cmd len : Nat} {old bytes : List UInt8} (line : SendLine)
    (hs : Stored s.heap m ⟨cmd, some old, 0⟩ (own (.sender i)))
    (hlen : bytes.length + 1 = old.length)
    (hl : ∀ h' l, Stored h' m ⟨cmd, some (bytes ++ [0]), len⟩ l → line.Holds h' l) :
    ∃ d own', s.heap m = .held (.msg ⟨cmd, some d, 0⟩) ∧
      Holding (s.fill d bytes fun u => (u.write m (.msg ⟨cmd, some d, len⟩)).goto i line) b
        own' := by
  have halloc := H.owned.held (.sender i)
  have hmem := hs.mem
  generalize hown : own (.sender i) = l at hs halloc hmem
  cases hs with
  | copy hm hd =>
  rename_i d
  have hne : d ≠ m := by
    rintro rfl
    rw [hm] at hd
    cases hd
  let h₁ := Function.update s.heap d (.held (Block.data (bytes ++ [0])))
  let h₂ := Function.update h₁ m (.held (.msg ⟨cmd, some d, len⟩))
  have hc₁ : s.heap.Change {m, d} h₁ {m, d} := .write halloc (.inr rfl)
  have hc₂ : s.heap.Change {m, d} h₂ {m, d} := hc₁.trans (.write hc₁.held hmem)
  have hf : ∀ x, s.next ≤ x → h₂ x = .fresh := by
    intro x hx
    have hlt := H.lt_next (halloc m hmem)
    show Function.update h₁ m _ x = _
    rw [Function.update_of_ne (by omega)]
    exact H.fresh_update (halloc d (.inr rfl)) x hx
  have hstored : Stored h₂ m ⟨cmd, some (bytes ++ [0]), len⟩ {m, d} := by
    have hd : h₂ d = .held (.data (bytes ++ [0])) := by
      show Function.update h₁ m _ d = _
      rw [Function.update_of_ne hne]
      exact Function.update_self ..
    exact .copy (Function.update_self ..) hd
  refine ⟨d, Function.update own (.sender i) {m, d}, hm, ?_⟩
  have hfill (f : State → State) : s.fill d bytes f = f { s with heap := h₁ } := by
    have htail : old.length - bytes.length = 1 := by omega
    simp only [State.fill, State.dataAt, hd, htail]
    rw [if_neg (by omega)]
    rfl
  rw [hfill]
  exact H.sender (hown ▸ hc₂) hf (hl _ _ hstored)

/-- A step of a caller that does not post. -/
theorem send {i : Nat} {ret : Int} {junk : Block} (hs : s.sendStep cap i ret junk = some s')
    (hpost : ∀ a m, s.senders i ≠ .post a m) : ∃ own', Holding s' b own' := by
  have hi := H.senders i
  have halloc := H.owned.held (.sender i)
  unfold State.sendStep at hs
  cases hl : s.senders i with
  | returned e =>
    rw [hl] at hs
    cases hs
  | mallocMsg a =>
    simp only [hl] at hi hs
    split at hs
    · cases junk with
      | data old => cases hs
      | msg r =>
        cases hs
        exact H.mallocMsg hi
    · cases hs
      exact ⟨own, H.senderTo hi⟩
  | clearMsg a m =>
    simp only [hl] at hi hs
    obtain ⟨hown, r, hr⟩ := hi
    rw [through_of_held hr] at hs
    cases hs
    refine H.writeMsg (hown ▸ rfl) ?_
    have hstored : Stored (Function.update s.heap m (.held (.msg { cmd := a.msgid }))) m
        ⟨a.msgid, none, 0⟩ (own (.sender i)) := by
      rw [hown]
      exact .alone (Function.update_self ..)
    split
    · exact ⟨‹_›, hstored⟩
    · exact ⟨eq_false_of_ne_true ‹_›, hstored⟩
  | mallocData a m =>
    simp only [hl] at hi hs
    obtain ⟨ha, hstored⟩ := hi
    obtain ⟨hm, hown⟩ := hstored.alone_inv
    split at hs
    · cases junk with
      | msg r => cases hs
      | data old =>
        have hlen := Nat.mod_eq_of_lt a.room
        dsimp only at hs
        split at hs <;> cases hs
        rw [through_of_held hm]
        exact H.mallocData hstored fun _ _ hc => ⟨ha, old, by omega, hc⟩
    · cases hs
      rw [through_of_held hm]
      exact H.writeMsg hstored.mem ⟨hown, _, Function.update_self ..⟩
  | fillData a m =>
    simp only [hl] at hi hs
    obtain ⟨ha, old, hlen, hstored⟩ := hi
    cases hs
    have hcontent : a.content = ⟨a.msgid, some (a.bytes ++ [0]), a.len⟩ := if_pos ha
    have hbytes : a.bytes.length + 1 = old.length := by rw [a.length_bytes ha, hlen]
    obtain ⟨d, own', hm, H'⟩ := H.fillData (.post a m) hstored hbytes fun h' l hc => by
      rw [← hcontent] at hc
      exact hc
    refine ⟨own', ?_⟩
    rw [through_of_held hm]
    exact H'
  | freeMsgAlone m =>
    simp only [hl] at hi hs
    obtain ⟨hown, r, hr⟩ := hi
    rw [through_of_held hr] at hs
    cases hs
    exact H.freeMsg ⟨hown, r, hr⟩
  | clearData a m =>
    simp only [hl] at hi hs
    obtain ⟨ha, hstored⟩ := hi
    obtain ⟨hm, hown⟩ := hstored.alone_inv
    rw [through_of_held hm] at hs
    cases hs
    have hcontent : a.content = ⟨a.msgid, none, 0⟩ := by
      rw [Args.content, ha]
      rfl
    refine H.writeMsg hstored.mem ?_
    show Stored _ m a.content _
    rw [hcontent, hown]
    exact .alone (Function.update_self ..)
  | post a m => exact absurd hl (hpost a m)
  | freeData m err =>
    simp only [hl] at hi hs
    obtain ⟨c, hstored⟩ := hi
    obtain ⟨h', hfree, hc, hb, hf⟩ :=
      hstored.freeDataOf (g := fun u => u.goto i (.freeMsg m err)) halloc
    rw [hfree] at hs
    cases hs
    exact ⟨_, H.sender hc (fun x hx => hf x (H.fresh x hx)) hb⟩
  | freeMsg m err =>
    simp only [hl] at hi hs
    obtain ⟨hown, r, hr⟩ := hi
    rw [through_of_held hr] at hs
    cases hs
    exact H.freeMsg ⟨hown, r, hr⟩

theorem mem_queued {m : Nat} (hm : m ∈ s.queue) : m ∈ own (.queued m) := by
  have hq := H.queue
  generalize s.queue = q at hm hq
  generalize b.queue = cs at hq
  induction hq with
  | nil => cases hm
  | cons hc _ ih =>
    rcases List.mem_cons.mp hm with rfl | hm
    · exact hc.mem
    · exact ih hm

/-- A post hands the message to the queue. -/
theorem post {i m : Nat} {a : Args} (hl : s.senders i = .post a m)
    (hfull : s.queue.length < cap) :
    ∃ b' own', b.post a.content = some b' ∧
      Holding ({ s with queue := s.queue ++ [m] }.goto i (.returned 0)) b' own' := by
  have hi := H.senders i
  rw [hl] at hi
  have hstored : Stored s.heap m a.content (own (.sender i)) := hi
  -- an address that the caller owns is not in the queue
  have hnew : m ∉ s.queue := fun hm =>
    Owner.noConfusion (H.owned.once _ _ m hstored.mem (H.mem_queued hm))
  have hroom : b.queue.length < cap := by rwa [← H.queue.length_eq]
  have hne (j : Nat) : Owner.sender j ≠ .queued m := Owner.noConfusion
  refine ⟨_, Function.update (Function.update own (.sender i) ∅) (.queued m) (own (.sender i)),
    dif_pos hroom, H.noFault, H.owned.give (H.rest m hnew), H.fresh, fun j => ?_, ?_, ?_, ?_, ?_⟩
  · show (Function.update s.senders i (.returned 0) j).Holds s.heap _
    rw [Function.update_of_ne (hne j)]
    by_cases hj : j = i
    · rw [hj, Function.update_self, Function.update_self]
      rfl
    · have hji : Owner.sender j ≠ .sender i := fun e => hj (Owner.sender.inj e)
      rw [Function.update_of_ne hj, Function.update_of_ne hji]
      exact H.senders j
  · show List.Forall₂ _ (s.queue ++ [m]) (b.queue ++ [a.content])
    refine List.rel_append (forall₂_imp H.queue fun x hx c hc => ?_) (.cons ?_ .nil)
    · have hxm : Owner.queued x ≠ .queued m := fun e => hnew (Owner.queued.inj e ▸ hx)
      rwa [Function.update_of_ne hxm, Function.update_of_ne Owner.noConfusion]
    · rwa [Function.update_self]
  · exact List.nodup_append.mpr
      ⟨H.nodup, List.pairwise_singleton _ m, fun x hx y hy => by
        rintro rfl
        exact hnew (List.mem_singleton.mp hy ▸ hx)⟩
  · intro x hx
    obtain ⟨hxq, hxm⟩ := not_or.mp (List.mem_append.not.mp hx)
    have hne' : Owner.queued x ≠ .queued m := fun e =>
      hxm (List.mem_singleton.mpr (Owner.queued.inj e))
    rw [Function.update_of_ne hne', Function.update_of_ne Owner.noConfusion]
    exact H.rest x hxq
  · rw [Function.update_of_ne Owner.noConfusion, Function.update_of_ne Owner.noConfusion]
    exact H.task

/-- `os_q_pend` hands the oldest message to the task. -/
theorem pend {m : Nat} {queue : List Nat} (hl : s.task = .pend) (hq : s.queue = m :: queue) :
    ∃ b' own', b.pend = some b' ∧ Holding { s with queue, task := .handle m } b' own' := by
  have ht := H.task
  have hqueue := H.queue
  have hnodup := H.nodup
  rw [hl] at ht
  rw [hq] at hqueue hnodup
  obtain ⟨hnone, hempty⟩ := ht
  obtain ⟨hm, hnodup⟩ := List.nodup_cons.mp hnodup
  obtain ⟨cs, handling, hfits⟩ := b
  cases hnone
  cases hqueue with
  | cons hc hrest =>
  rename_i c cs
  refine ⟨_, Function.update (Function.update own (.queued m) ∅) .task (own (.queued m)), rfl,
    H.noFault, H.owned.give hempty, H.fresh, fun j => ?_, ?_, hnodup, fun x hx => ?_, ?_⟩
  · rw [Function.update_of_ne Owner.noConfusion, Function.update_of_ne Owner.noConfusion]
    exact H.senders j
  · show List.Forall₂ _ queue cs
    refine forall₂_imp hrest fun x hx c hc => ?_
    have hxm : Owner.queued x ≠ .queued m := fun e => hm (Owner.queued.inj e ▸ hx)
    rwa [Function.update_of_ne Owner.noConfusion, Function.update_of_ne hxm]
  · rw [Function.update_of_ne Owner.noConfusion]
    by_cases hxm : x = m
    · rw [hxm, Function.update_self]
    · have hne : Owner.queued x ≠ .queued m := fun e => hxm (Owner.queued.inj e)
      rw [Function.update_of_ne hne]
      refine H.rest x fun hx' => ?_
      rw [hq] at hx'
      exact (List.mem_cons.mp hx').elim hxm hx
  · rw [Function.update_self]
    exact ⟨c, rfl, hc⟩

/-- A step of the task that handles a message, or releases one. -/
theorem taskStep {ret : Int} (hs : s.taskStep ret = some s') (hpend : s.task ≠ .pend) :
    ∃ b' own', (Mailbox.machine Content cap).run b (events s (.task ret)) = some b' ∧
      Holding s' b' own' := by
  have ht := H.task
  have halloc := H.owned.held .task
  unfold State.taskStep at hs
  cases hl : s.task with
  | pend => exact absurd hl hpend
  | handle m =>
    simp only [hl] at ht hs
    obtain ⟨c, hhandling, hc⟩ := ht
    obtain ⟨r, hr⟩ := hc.through (f := fun _ => { s with task := .freeData m })
    rw [hr] at hs
    cases hs
    have hdone : (Mailbox.machine Content cap).run b (events s (.task ret)) = some b.done := by
      simp only [events, hl, hc.contentAt, Option.toList, List.map_cons, List.map_nil,
        Machine.run_singleton]
      exact if_pos hhandling
    exact ⟨b.done, _, hdone, H.taskTo (.refl halloc) H.fresh rfl ⟨rfl, c, hc⟩⟩
  | freeData m =>
    simp only [hl] at ht hs
    obtain ⟨hnone, c, hc⟩ := ht
    obtain ⟨h', hfree, hchange, hb, hf⟩ :=
      hc.freeDataOf (g := fun u => { u with task := .freeMsg m }) halloc
    rw [hfree] at hs
    cases hs
    exact ⟨b, _, by simp only [events, hl]; rfl,
      H.taskTo hchange (fun x hx => hf x (H.fresh x hx)) rfl ⟨hnone, hb⟩⟩
  | freeMsg m =>
    simp only [hl] at ht hs
    obtain ⟨hnone, hown, r, hr⟩ := ht
    rw [through_of_held hr] at hs
    cases hs
    have hm : m ∈ own .task := hown ▸ rfl
    have hnil : own .task \ {m} = ∅ := by
      rw [hown]
      exact Set.eq_empty_of_forall_notMem fun x hx => hx.2 hx.1
    exact ⟨b, _, by simp only [events, hl]; rfl,
      H.taskTo (.free halloc hm) (H.fresh_update (halloc m hm)) rfl ⟨hnone, hnil⟩⟩

/-- A step of any caller. -/
theorem sendStep {i : Nat} {ret : Int} {junk : Block}
    (hs : s.sendStep cap i ret junk = some s') :
    ∃ b' own', (Mailbox.machine Content cap).run b (events s (.send i ret junk)) = some b' ∧
      Holding s' b' own' := by
  by_cases hp : ∃ a m, s.senders i = .post a m
  · obtain ⟨a, m, hl⟩ := hp
    have hi := H.senders i
    simp only [State.sendStep, hl] at hs hi
    by_cases hret : ret = 0
    · rw [if_pos hret] at hs
      split at hs <;> cases hs
      obtain ⟨b', own', hb, H'⟩ := H.post hl ‹_›
      have hpost : events s (.send i ret junk) = [.post a.content] := by
        simp only [events, hl, if_pos hret]
      exact ⟨b', own', by rw [hpost, Machine.run_singleton]; exact hb, H'⟩
    · rw [if_neg hret] at hs
      cases hs
      have hquiet : events s (.send i ret junk) = [] := by simp only [events, hl, if_neg hret]
      exact ⟨b, own, by rw [hquiet]; rfl, H.senderTo ⟨_, hi⟩⟩
  · have hpost (a : Args) (m : Nat) : s.senders i ≠ .post a m := fun hl => hp ⟨a, m, hl⟩
    have hquiet : events s (.send i ret junk) = [] := by
      cases hl : s.senders i with
      | post a m => exact absurd hl (hpost a m)
      | _ => simp only [events, hl]
    obtain ⟨own', H'⟩ := H.send hs hpost
    exact ⟨b, own', by rw [hquiet]; rfl, H'⟩

/-- A step of the task at `os_q_pend`. -/
theorem pendStep {ret : Int} (hs : s.taskStep ret = some s') (hl : s.task = .pend) :
    ∃ b' own', (Mailbox.machine Content cap).run b (events s (.task ret)) = some b' ∧
      Holding s' b' own' := by
  simp only [State.taskStep, hl] at hs
  by_cases hret : ret = 0
  · rw [if_pos hret] at hs
    cases hq : s.queue with
    | nil =>
      rw [hq] at hs
      cases hs
    | cons m queue =>
      simp only [hq] at hs
      cases hs
      obtain ⟨b', own', hb, H'⟩ := H.pend hl hq
      have htake : events s (.task ret) = [.pend] := by simp only [events, hl, if_pos hret]
      exact ⟨b', own', by rw [htake, Machine.run_singleton]; exact hb, H'⟩
  · rw [if_neg hret] at hs
    cases hs
    have hquiet : events s (.task ret) = [] := by simp only [events, hl, if_neg hret]
    exact ⟨b, own, by rw [hquiet]; rfl, H⟩

theorem step {a : Action} (hs : (messages cap).step s a = some s') :
    ∃ b' own', (Mailbox.machine Content cap).run b (events s a) = some b' ∧
      Holding s' b' own' := by
  have hs : s.step cap a = some s' := hs
  unfold State.step at hs
  rw [H.noFault] at hs
  cases a with
  | call i args =>
    have hi := H.senders i
    cases hl : s.senders i with
    | returned e =>
      simp only [hl] at hs hi
      cases hs
      exact ⟨b, own, rfl, H.senderTo hi⟩
    | _ =>
      simp only [hl] at hs
      cases hs
  | send i ret junk => exact H.sendStep hs
  | task ret =>
    have hs : s.taskStep ret = some s' := hs
    by_cases hl : s.task = .pend
    · exact H.pendStep hs hl
    · exact H.taskStep hs hl

end Holding

/-- The machine refines the mailbox: what it says to an observer is what a mailbox of messages does,
and it holds the messages of that mailbox. -/
theorem refines (cap : Nat) : Machine.Simulation (messages cap) (Mailbox.machine Content cap)
    events (fun _ _ => True) fun s b => ∃ own, Holding s b own where
  init := ⟨_, Holding.init⟩
  step _ _ _ _ hR _ hs := by
    obtain ⟨own, H⟩ := hR
    obtain ⟨b', own', hb, H'⟩ := H.step hs
    exact ⟨b', hb, own', H'⟩

/-! ### Every run -/

/-- The messages in the queue, and the one that the task has taken and not handled yet. -/
def State.unhandled (s : State) : Nat :=
  s.queue.length + match s.task with
    | .handle _ => 1
    | _ => 0

/-- No call is under way, and the task waits at an empty queue. -/
def State.Idle (s : State) : Prop :=
  (∀ i, ∃ ret, s.senders i = .returned ret) ∧ s.queue = [] ∧ s.task = .pend

namespace Holding

variable {cap : Nat} {s : State} {b : Mailbox Content cap} {own : Owner → Set Nat}
  (H : Holding s b own)
include H

theorem length_pending : b.pending.length = s.unhandled := by
  have ht := H.task
  rw [Mailbox.pending, State.unhandled, List.length_append, H.queue.length_eq, Nat.add_comm]
  congr 1
  cases hl : s.task with
  | handle m =>
    rw [hl] at ht
    obtain ⟨c, hc, -⟩ := ht
    rw [hc]
    rfl
  | _ =>
    rw [hl] at ht
    rw [ht.1]
    rfl

theorem empty_of_idle (hidle : s.Idle) (o : Owner) : own o = ∅ := by
  obtain ⟨hsenders, hqueue, htask⟩ := hidle
  cases o with
  | sender i =>
    obtain ⟨ret, hret⟩ := hsenders i
    have hi := H.senders i
    rw [hret] at hi
    exact hi
  | queued m => exact H.rest m (by simp [hqueue])
  | task =>
    have ht := H.task
    rw [htask] at ht
    exact ht.2

end Holding

/-- However the tasks interleave, and whatever `malloc` and the queue refuse, no task uses or frees
memory that is not allocated, the messages are handled in the order of their posts with what their
senders asked for, and an idle system has released all its memory. -/
theorem messages_delivered {cap : Nat} {as : List Action} {s : State}
    (hr : (messages cap).run (messages cap).init as = some s) :
    s.fault = false ∧
      (∃ rest : List Content, rest.length = s.unhandled ∧
        ((messages cap).trace events (messages cap).init as).filterMap Mailbox.Event.posted =
          ((messages cap).trace events (messages cap).init as).filterMap Mailbox.Event.handled ++
            rest) ∧
      (s.Idle → ∀ x, ¬ s.heap.Allocated x) := by
  obtain ⟨b, hb, own, H⟩ := (refines cap).run (Machine.along_true _ _) hr
  refine ⟨H.noFault, ⟨b.pending, H.length_pending, ?_⟩, fun hidle => ?_⟩
  · exact Mailbox.fifo hb
  · exact H.owned.free_of_empty (H.empty_of_idle hidle)

theorem greeting_whole : ∀ bytes ∈ some [7, 8], (bytes : List UInt8).length = 2 := by simp

theorem greeting_room : 2 + 1 < 2 ^ 32 := by decide

/-- A message with two bytes. -/
def greeting : Args := ⟨3, some [7, 8], 2, greeting_whole, greeting_room⟩

/-- One task sends a message, while another one gets no memory for its data and a third finds the
queue full; then the message is handled and released. -/
def threeSenders : List Action :=
  [.call 0 greeting, .send 0 0 (.msg {}), .call 1 greeting, .send 0 0 (.msg {}),
    .send 1 0 (.msg { data := some 9 }), .send 0 0 (.data [1, 1, 1]), .send 1 0 (.msg {}),
    .send 0 0 (.msg {}), .send 1 1 (.msg {}), .call 2 greeting, .send 0 0 (.msg {}),
    .send 1 0 (.msg {}), .send 2 0 (.msg {}), .send 2 0 (.msg {}), .send 2 0 (.data [2, 2, 2]),
    .send 2 0 (.msg {}), .send 2 30 (.msg {}), .task 0, .send 2 0 (.msg {}), .task 0, .task 0,
    .send 2 0 (.msg {}), .task 0]

theorem threeSenders_delivered : ∃ s, (messages 1).run (messages 1).init threeSenders = some s ∧
    s.senders 0 = .returned 0 ∧ s.senders 1 = .returned (-1) ∧ s.senders 2 = .returned 30 ∧
    s.fault = false ∧ ∀ x, ¬ s.heap.Allocated x := by
  refine ⟨_, rfl, rfl, rfl, rfl, ?_⟩
  have h := @messages_delivered 1 threeSenders _ rfl
  refine ⟨h.1, h.2.2 ⟨fun i => ?_, rfl, rfl⟩⟩
  match i with
  | 0 | 1 | 2 | i + 3 => exact ⟨_, rfl⟩

end AiCall.Jl.Messages
