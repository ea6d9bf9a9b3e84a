import Muduo.Net.Poller
import Muduo.Support.DenseIndex

/-! `muduo::net::PollPoller`: the vector handed to `poll(2)`, in which each channel knows
the position of its slot. -/
namespace Muduo.Net
open Muduo.Support

/-- `struct pollfd` -/
structure PollFd where
  fd : Int
  events : Nat
  revents : Int
  deriving DecidableEq, Repr

structure PollPoller (κ : Type) where
  objects : κ → PolledChannel
  channels : ChannelMap κ
  pollfds : Array PollFd

namespace PollPoller
variable {κ : Type} [DecidableEq κ] (fd : κ → Int)

def new : PollPoller κ := ⟨fun _ => .new, fun _ => none, #[]⟩

def store (p : PollPoller κ) (k : κ) (o : PolledChannel) : PollPoller κ :=
  { p with objects := Function.update p.objects k o }

@[simp] theorem store_self (p : PollPoller κ) (k : κ) (o : PolledChannel) :
    (p.store k o).objects k = o := Function.update_self ..

theorem store_of_ne (p : PollPoller κ) {j k : κ} (o : PolledChannel) (h : j ≠ k) :
    (p.store k o).objects j = p.objects j := Function.update_of_ne h ..

/-- `pollfds_[idx]` -/
def pollfd (p : PollPoller κ) (idx : Int) : Except Fault PollFd :=
  match p.pollfds[idx.toNat]? with
  | some pfd => .ok pfd
  | none => .error .memory

def updateChannel (p : PollPoller κ) (k : κ) : Except Fault (PollPoller κ) := do
  let o := p.objects k
  if o.index < 0 then
    assert (p.channels (fd k) = none)
    let pollfds := p.pollfds.push ⟨fd k, o.channel.events, 0⟩
    let idx := (pollfds.size : Int) - 1
    let p := p.store k (o.set_index idx)
    return { p with pollfds, channels := Function.update p.channels (fd k) (some k) }
  else
    assert (p.channels (fd k) = some k)
    let idx := o.index
    assert (0 ≤ idx ∧ idx < p.pollfds.size)
    let pfd ← p.pollfd idx
    assert (pfd.fd = fd k ∨ pfd.fd = -fd k - 1)
    -- a slot without interest is ignored by its negative descriptor
    let pfd := ⟨if o.channel.isNoneEvent then -fd k - 1 else fd k, o.channel.events, 0⟩
    return { p with pollfds := p.pollfds.setIfInBounds idx.toNat pfd }

def removeChannel (p : PollPoller κ) (k : κ) : Except Fault (PollPoller κ) := do
  let o := p.objects k
  assert (p.channels (fd k) = some k)
  assert (o.channel.isNoneEvent = true)
  let idx := o.index
  assert (0 ≤ idx ∧ idx < p.pollfds.size)
  let pfd ← p.pollfd idx
  assert (pfd.fd = -fd k - 1 ∧ pfd.events = o.channel.events)
  let channels := Function.update p.channels (fd k) none
  let last := p.pollfds.size - 1
  if idx.toNat = last then return { p with channels, pollfds := p.pollfds.pop }
  else
    let back ← p.pollfd last
    let pollfds := p.pollfds.swapIfInBounds idx.toNat last
    let channelAtEnd := if back.fd < 0 then -back.fd - 1 else back.fd
    match channels channelAtEnd with
    | none => .error .memory
    | some m =>
        let p := p.store m ((p.objects m).set_index idx)
        return { p with channels, pollfds := pollfds.pop }

/-- The loop of `fillActiveChannels` over the slots that are left. -/
def fillFrom (numEvents : Int) : List PollFd → PollPoller κ → List κ →
    Except Fault (PollPoller κ × List κ)
  | [], p, activeChannels => .ok (p, activeChannels)
  | pfd :: pfds, p, activeChannels =>
      if 0 < numEvents then
        if pfd.revents ≤ 0 then fillFrom numEvents pfds p activeChannels
        else
          match p.channels pfd.fd with
          | none => .error .assertion
          | some k => do
              assert (fd k = pfd.fd)
              fillFrom (numEvents - 1) pfds (p.store k ((p.objects k).set_revents pfd.revents))
                (activeChannels ++ [k])
      else .ok (p, activeChannels)

def fillActiveChannels (p : PollPoller κ) (numEvents : Int) :
    Except Fault (PollPoller κ × List κ) :=
  fillFrom fd numEvents p.pollfds.toList p []

/-- `poll(2)` writes the `revents` of each slot. -/
def answered (p : PollPoller κ) (revents : Nat → Int) : PollPoller κ :=
  { p with pollfds := p.pollfds.mapIdx fun i pfd => { pfd with revents := revents i } }

/-- The number of slots with events, which `poll(2)` returns. -/
def numEvents (p : PollPoller κ) : Int :=
  p.pollfds.toList.countP fun pfd => 0 < pfd.revents

/-- An ignored slot has no events. -/
def Ignores (p : PollPoller κ) : Prop :=
  ∀ pfd ∈ p.pollfds.toList, pfd.fd < 0 → pfd.revents = 0

inductive Step (κ : Type) where
  | call (c : PollerCall κ)
  | poll (revents : Nat → Int)

/-- The loop serving its channels. The assertions of the calls are their preconditions;
the kernel keeps to its own. -/
def machine : Machine (PollPoller κ) (Step κ) where
  enabled p
    | .call _ => True
    | .poll revents => (p.answered revents).Ignores
  step p
    | .call (.update op k) =>
        let o := p.objects k
        (p.store k { o with channel := op.apply o.channel }).updateChannel fd k
    | .call (.remove k) => do
        let o := p.objects k
        let channel ← o.channel.remove
        (p.store k { o with channel }).removeChannel fd k
    | .poll revents => do
        let p := p.answered revents
        let (p, _) ← p.fillActiveChannels fd p.numEvents
        return p

end PollPoller
end Muduo.Net
