import Mathlib.Data.Int.Order.Basic

/-! `muduo::Timestamp`: microseconds since the epoch. -/
namespace Muduo.Base

abbrev Timestamp := Int

namespace Timestamp

def kMicroSecondsPerSecond : Int := 1000 * 1000

def invalid : Timestamp := 0

def valid (t : Timestamp) : Bool := t > 0

end Timestamp
end Muduo.Base
