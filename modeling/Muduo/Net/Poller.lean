import Muduo.Net.Channel
import Mathlib.Logic.Function.Basic

/-! `muduo::net::Poller`: what both pollers keep of a channel, and the calls they serve.
A channel is named by `κ`, and `fd` gives the descriptor it was made with. -/
namespace Muduo.Net
open Muduo.Support

/-- A `Channel` object as its poller sees it. -/
structure PolledChannel where
  channel : Channel
  index : Int
  revents : Int
  deriving DecidableEq, Repr

namespace PolledChannel

def new : PolledChannel := ⟨.new, -1, 0⟩

def set_index (o : PolledChannel) (idx : Int) : PolledChannel := { o with index := idx }
def set_revents (o : PolledChannel) (revt : Int) : PolledChannel := { o with revents := revt }

end PolledChannel

/-- `channels_`, a map from descriptors to channels. -/
abbrev ChannelMap (κ : Type) := Int → Option κ

/-- The calls of `Channel` that reach the poller. -/
inductive PollerCall (κ : Type) where
  | update (op : InterestOp) (k : κ)
  | remove (k : κ)

end Muduo.Net
