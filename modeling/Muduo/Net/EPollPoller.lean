import Muduo.Net.Poller

/-! `muduo::net::EPollPoller` and the kernel's interest list. -/
namespace Muduo.Net
open Muduo.Support

inductive EpollOp where
  | EPOLL_CTL_ADD | EPOLL_CTL_MOD | EPOLL_CTL_DEL
  deriving DecidableEq, Repr

/-- `struct epoll_event`: a mask, and in `data.ptr` the channel. -/
structure EpollEvent (κ : Type) where
  events : Nat
  ptr : κ
  deriving DecidableEq, Repr

/-- A call of `epoll_ctl`, and whether the descriptor was in the set. -/
structure EpollCtl where
  operation : EpollOp
  fd : Int
  inSet : Bool
  deriving DecidableEq, Repr

/-- An ADD needs a descriptor that is not in the set, a MOD or DEL one that is. -/
def EpollCtl.Valid (c : EpollCtl) : Prop := c.inSet = true ↔ c.operation ≠ .EPOLL_CTL_ADD

/-- The kernel's side of `epoll_ctl`, which fails on an operation that is not valid. -/
def epoll_ctl {κ : Type} (set : Int → Option (EpollEvent κ)) (operation : EpollOp) (fd : Int)
    (event : EpollEvent κ) : Option (Int → Option (EpollEvent κ)) :=
  match operation, set fd with
  | .EPOLL_CTL_ADD, none => some (Function.update set fd (some event))
  | .EPOLL_CTL_ADD, some _ => none
  | .EPOLL_CTL_MOD, some _ => some (Function.update set fd (some event))
  | .EPOLL_CTL_MOD, none => none
  | .EPOLL_CTL_DEL, some _ => some (Function.update set fd none)
  | .EPOLL_CTL_DEL, none => none

structure EPollPoller (κ : Type) where
  objects : κ → PolledChannel
  channels : ChannelMap κ
  /-- What the kernel holds for `epollfd_`. -/
  epoll : Int → Option (EpollEvent κ)
  /-- The calls of `epoll_ctl` so far. -/
  ctls : List EpollCtl

namespace EPollPoller
variable {κ : Type} [DecidableEq κ] (fd : κ → Int)

def kNew : Int := -1
def kAdded : Int := 1
def kDeleted : Int := 2

def new : EPollPoller κ := ⟨fun _ => .new, fun _ => none, fun _ => none, []⟩

def store (p : EPollPoller κ) (k : κ) (o : PolledChannel) : EPollPoller κ :=
  { p with objects := Function.update p.objects k o }

def set_index (p : EPollPoller κ) (k : κ) (idx : Int) : EPollPoller κ :=
  p.store k ((p.objects k).set_index idx)

def update (p : EPollPoller κ) (operation : EpollOp) (k : κ) : Except Fault (EPollPoller κ) :=
  let event : EpollEvent κ := ⟨(p.objects k).channel.events, k⟩
  let ctls := p.ctls ++ [⟨operation, fd k, (p.epoll (fd k)).isSome⟩]
  match epoll_ctl p.epoll operation (fd k) event with
  | some epoll => .ok { p with epoll, ctls }
  | none =>
      -- `LOG_SYSERR` returns and `LOG_SYSFATAL` aborts
      if operation = .EPOLL_CTL_DEL then .ok { p with ctls } else .error .assertion

def updateChannel (p : EPollPoller κ) (k : κ) : Except Fault (EPollPoller κ) := do
  let index := (p.objects k).index
  if index = kNew then
    assert (p.channels (fd k) = none)
    let p := { p with channels := Function.update p.channels (fd k) (some k) }
    (p.set_index k kAdded).update fd .EPOLL_CTL_ADD k
  else if index = kDeleted then
    assert (p.channels (fd k) = some k)
    (p.set_index k kAdded).update fd .EPOLL_CTL_ADD k
  else
    assert (p.channels (fd k) = some k)
    assert (index = kAdded)
    if (p.objects k).channel.isNoneEvent then
      let p ← p.update fd .EPOLL_CTL_DEL k
      return p.set_index k kDeleted
    else p.update fd .EPOLL_CTL_MOD k

def removeChannel (p : EPollPoller κ) (k : κ) : Except Fault (EPollPoller κ) := do
  assert (p.channels (fd k) = some k)
  assert ((p.objects k).channel.isNoneEvent = true)
  let index := (p.objects k).index
  assert (index = kAdded ∨ index = kDeleted)
  let p := { p with channels := Function.update p.channels (fd k) none }
  if index = kAdded then
    let p ← p.update fd .EPOLL_CTL_DEL k
    return p.set_index k kNew
  else return p.set_index k kNew

/-- The loop serving its channels; only a registered channel without interest is removed. -/
def machine : Machine (EPollPoller κ) (PollerCall κ) where
  enabled p
    | .update _ _ => True
    | .remove k => (p.objects k).channel.addedToLoop = true ∧
        (p.objects k).channel.isNoneEvent = true
  step p
    | .update op k =>
        let o := p.objects k
        (p.store k { o with channel := op.apply o.channel }).updateChannel fd k
    | .remove k => do
        let o := p.objects k
        let channel ← o.channel.remove
        (p.store k { o with channel }).removeChannel fd k

end EPollPoller
end Muduo.Net
