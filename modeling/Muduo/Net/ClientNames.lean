import Muduo.Net.TcpServer
import Muduo.Support.Label

/-! The names that a client gives to its connections. -/
namespace Muduo.Net
open Muduo.Support

/-- An address and port: up to 45 characters of `inet_ntop`, for either family. -/
structure InetAddress where
  ip : Bytes
  port : UInt16
  short : ip.length ≤ 45

namespace InetAddress

/-- What `toIpPort` prints into `char buf[64]`: the address, and `":%u"` behind it. -/
def ipPort (addr : InetAddress) : Bytes :=
  addr.ip ++ (ascii [':'] ++ decimal addr.port.toNat).take (64 - addr.ip.length - 1)

theorem ipPort_length_le (addr : InetAddress) : addr.ipPort.length ≤ 51 := by
  have hport : (decimal addr.port.toNat).length ≤ 5 := by
    apply decimal_length_le (by decide)
    have hlt := addr.port.toNat_lt
    omega
  have hip := addr.short
  rw [ipPort, List.length_append, List.length_take, List.length_append, ascii, List.length_map,
    List.length_singleton]
  omega

def toIpPort (addr : InetAddress) : IpPort := ⟨addr.ipPort, addr.ipPort_length_le⟩

end InetAddress

/-- What names a connection of a `TcpClient`, with the names given so far, oldest first. -/
structure ClientNames where
  name : Bytes
  nextConnId : Nat
  connNames : List Bytes

namespace ClientNames

def new (name : Bytes) : ClientNames := ⟨name, 1, []⟩

/-- `snprintf(buf, sizeof buf, ":%s#%d", peerAddr.toIpPort().c_str(), nextConnId_++)` into
`char buf[32]`. -/
def snprintf (ipPort : IpPort) (nextConnId : Nat) : Bytes :=
  (ascii [':'] ++ ipPort.bytes ++ ascii ['#'] ++ decimal nextConnId).take 31

def newConnection (c : ClientNames) (peerAddr : InetAddress) : ClientNames :=
  let connName := c.name ++ snprintf peerAddr.toIpPort c.nextConnId
  { c with nextConnId := c.nextConnId + 1, connNames := c.connNames ++ [connName] }

/-- `nextConnId_` is an `int`. -/
def machine : Machine ClientNames InetAddress :=
  ⟨fun c _ => c.nextConnId ≤ TcpServer.INT_MAX, fun c peerAddr => return c.newConnection peerAddr⟩

/-- Two numbered connections share the 30 characters that are kept of peer, `#` (35) and number. -/
def Clash (a b : InetAddress × Nat) : Prop :=
  SameStart 35 30 a.1.toIpPort.bytes (decimal a.2) b.1.toIpPort.bytes (decimal b.2)

instance (a b : InetAddress × Nat) : Decidable (Clash a b) :=
  inferInstanceAs (Decidable (SameStart _ _ _ _ _ _))

instance (c : ClientNames) (peerAddr : InetAddress) :
    Decidable (machine.enabled c peerAddr) :=
  inferInstanceAs (Decidable (c.nextConnId ≤ TcpServer.INT_MAX))

variable {c c' : ClientNames} {peers : List InetAddress}

theorem snprintf_eq_take_label (ipPort : IpPort) (n : Nat) :
    snprintf ipPort n = 58 :: (label 35 ipPort.bytes (decimal n)).take 30 := by
  rw [snprintf, List.append_assoc, List.append_assoc]
  rfl

theorem hash_not_mem_decimal (n : Nat) : (35 : UInt8) ∉ decimal n := by
  intro h
  exact absurd (decimal_digits 35 h).1 (by decide)

theorem snprintf_eq_iff (a b : InetAddress × Nat) :
    snprintf a.1.toIpPort a.2 = snprintf b.1.toIpPort b.2 ↔ Clash a b := by
  rw [snprintf_eq_take_label, snprintf_eq_take_label, List.cons_inj_right]
  exact take_label_eq_iff (hash_not_mem_decimal a.2) (hash_not_mem_decimal b.2)

/-- A run gives each peer the next number. -/
theorem run_connNames (hr : machine.Run c peers c') :
    c'.connNames = c.connNames ++
      (peers.zipIdx c.nextConnId).map fun a => c.name ++ snprintf a.1.toIpPort a.2 := by
  induction hr with
  | nil c => rw [List.zipIdx_nil, List.map_nil, List.append_nil]
  | @cons c d c' a peers he hs hr ih =>
    cases hs
    rw [ih, List.zipIdx_cons, List.map_cons, newConnection, List.append_assoc]
    rfl

theorem exists_run_of_room (h : c.nextConnId + peers.length ≤ TcpServer.INT_MAX + 1) :
    ∃ c', machine.Run c peers c' := by
  induction peers generalizing c with
  | nil => exact ⟨c, .nil c⟩
  | cons a peers ih =>
    rw [List.length_cons] at h
    have hnext : (c.newConnection a).nextConnId = c.nextConnId + 1 := rfl
    obtain ⟨c', hr⟩ := ih (c := c.newConnection a) (by omega)
    exact ⟨c', .cons (show c.nextConnId ≤ TcpServer.INT_MAX by omega) rfl hr⟩

theorem run_nodup_iff {name : Bytes} (hr : machine.Run (.new name) peers c) :
    c.connNames.Nodup ↔ (peers.zipIdx 1).Pairwise fun a b => ¬ Clash a b := by
  have hnames : c.connNames = [] ++ (peers.zipIdx 1).map fun a =>
      name ++ snprintf a.1.toIpPort a.2 := run_connNames hr
  rw [hnames, List.nil_append, List.nodup_iff_pairwise_ne, List.pairwise_map]
  apply List.Pairwise.iff
  intro a b
  rw [ne_eq, List.append_right_inj, snprintf_eq_iff]

/-- From `nextConnId_` 1 on, the names that a client gives are distinct exactly when no two
connections clash. -/
theorem connNames_distinct_iff (name : Bytes) {peers : List InetAddress}
    (hfew : peers.length < 2 ^ 31) :
    (∃ c, machine.Run (.new name) peers c) ∧
      ∀ c, machine.Run (.new name) peers c →
        (c.connNames.Nodup ↔ (peers.zipIdx 1).Pairwise fun a b => ¬ Clash a b) := by
  refine ⟨exists_run_of_room ?_, fun c hr => run_nodup_iff hr⟩
  have hmax : TcpServer.INT_MAX + 1 = 2 ^ 31 := rfl
  have hone : (new name).nextConnId = 1 := rfl
  omega

/-- A peer of each family. -/
def peer4 : InetAddress := ⟨ascii "10.0.0.1".toList, 80, by decide +kernel⟩

def peer6 : InetAddress :=
  ⟨ascii "2001:db8:1111:2222:3333:4444:5555:6666".toList, 65535, by decide +kernel⟩

theorem connNames_distinct_short :
    ∃ c, machine.Run (.new []) [peer4, peer4] c ∧ c.connNames.Nodup := by
  have hfew : [peer4, peer4].length < 2 ^ 31 := by decide
  obtain ⟨⟨c, hr⟩, hiff⟩ := connNames_distinct_iff [] hfew
  exact ⟨c, hr, (hiff c hr).mpr (by decide +kernel)⟩

/-- The second connection to a long address gets the name of the first. -/
theorem connNames_repeated :
    ¬ ∀ (name : Bytes) (peers : List InetAddress), peers.length < 2 ^ 31 →
      ∀ c, machine.Run (.new name) peers c → c.connNames.Nodup := by
  intro h
  have hr : machine.Run (.new []) [peer6, peer6]
      (((new []).newConnection peer6).newConnection peer6) := Machine.run_of_exec rfl
  exact absurd (h [] [peer6, peer6] (by decide) _ hr) (by decide +kernel)

/-- Names are distinct where the number fits behind every peer. -/
theorem nodup_of_fit {name : Bytes} {k : Nat} (hk : 0 < k) (hfew : peers.length < 10 ^ k)
    (hfit : ∀ a ∈ peers, a.toIpPort.bytes.length + 1 + k ≤ 30)
    (hr : machine.Run (.new name) peers c) : c.connNames.Nodup := by
  have hroom : ∀ a ∈ peers.zipIdx 1,
      (label 35 a.1.toIpPort.bytes (decimal a.2)).length ≤ 30 := by
    intro a ha
    obtain ⟨_, hlt, hmem⟩ := List.mem_zipIdx ha
    have hdigits : (decimal a.2).length ≤ k := decimal_length_le hk (by omega)
    have hlength := hfit a.1 (hmem ▸ List.getElem_mem _)
    rw [length_label]
    omega
  rw [run_nodup_iff hr]
  have hnumbers : (peers.zipIdx 1).Pairwise fun a b => a.2 ≠ b.2 := by
    rw [← List.pairwise_map, List.zipIdx_map_snd]
    exact List.nodup_range'
  apply List.Pairwise.imp_of_mem ?_ hnumbers
  intro a b ha hb hne hclash
  have hlabel := (sameStart_iff_of_fit (hash_not_mem_decimal a.2) (hash_not_mem_decimal b.2)
    (hroom a ha) (hroom b hb)).mp hclash
  exact hne (decimal_injective hlabel.2)

end ClientNames
end Muduo.Net
