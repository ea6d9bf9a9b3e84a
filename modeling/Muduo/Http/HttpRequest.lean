import Mathlib.Data.List.DropRight
import Muduo.Base.Timestamp
import Muduo.Net.Buffer
import Muduo.Support.OrderedMap

/-! `muduo::net::HttpRequest`. A pair of pointers into the input is the bytes between. -/
namespace Muduo.Http
open Muduo.Base Muduo.Net Muduo.Support

/-- The bytes of a literal. -/
def text (s : String) : Bytes := s.toList.map fun c => c.toNat.toUInt8

/-- `isspace` of the C locale. -/
def isspace (b : Byte) : Bool := b = 32 || (9 ≤ b && b ≤ 13)

inductive Method where
  | kInvalid | kGet | kPost | kHead | kPut | kDelete
  deriving DecidableEq, Repr

inductive Version where
  | kUnknown | kHttp10 | kHttp11
  deriving DecidableEq, Repr

structure HttpRequest where
  method : Method
  version : Version
  path : Bytes
  query : Bytes
  receiveTime : Timestamp
  headers : OrderedMap Bytes Bytes
  deriving DecidableEq

namespace HttpRequest

def new : HttpRequest where
  method := .kInvalid
  version := .kUnknown
  path := []
  query := []
  receiveTime := .invalid
  headers := .empty

def setVersion (r : HttpRequest) (v : Version) : HttpRequest := { r with version := v }

/-- The method that a token names. -/
def methodOf (m : Bytes) : Method :=
  if m = text "GET" then .kGet
  else if m = text "POST" then .kPost
  else if m = text "HEAD" then .kHead
  else if m = text "PUT" then .kPut
  else if m = text "DELETE" then .kDelete
  else .kInvalid

def setMethod (r : HttpRequest) (m : Bytes) : Except Fault (Bool × HttpRequest) := do
  assert (r.method = .kInvalid)
  let r := { r with method := methodOf m }
  return (decide (r.method ≠ .kInvalid), r)

def methodString (m : Method) : Bytes :=
  match m with
  | .kInvalid => text "UNKNOWN"
  | .kGet => text "GET"
  | .kPost => text "POST"
  | .kHead => text "HEAD"
  | .kPut => text "PUT"
  | .kDelete => text "DELETE"

def setPath (r : HttpRequest) (path : Bytes) : HttpRequest := { r with path }

def setQuery (r : HttpRequest) (query : Bytes) : HttpRequest := { r with query }

def setReceiveTime (r : HttpRequest) (t : Timestamp) : HttpRequest := { r with receiveTime := t }

/-- A header value: spaces skipped in front, popped off at the back. -/
def headerValue (text : Bytes) : Bytes := (text.dropWhile isspace).rdropWhile isspace

/-- The field up to the colon, the value behind it. -/
def addHeader (r : HttpRequest) (line : Bytes) (colon : Nat) : HttpRequest :=
  { r with headers := r.headers.insert (line.take colon) (headerValue (line.drop (colon + 1))) }

def getHeader (r : HttpRequest) (field : Bytes) : Bytes := (r.headers.find field).getD []

theorem getHeader_addHeader (r : HttpRequest) (line : Bytes) (colon : Nat) (field : Bytes) :
    (r.addHeader line colon).getHeader field =
      if field = line.take colon then headerValue (line.drop (colon + 1)) else r.getHeader field := by
  rw [getHeader, addHeader, OrderedMap.find_insert]
  split
  · rfl
  · rfl

/-- `setMethod` names the methods it accepts by their `methodString`. -/
theorem methodOf_eq_iff {m : Bytes} {method : Method} (h : method ≠ .kInvalid) :
    methodOf m = method ↔ m = methodString method := by
  constructor
  · intro hm
    unfold methodOf at hm
    split_ifs at hm with h₁ h₂ h₃ h₄ h₅ <;> subst hm <;> first | exact absurd rfl h | assumption
  · rintro rfl
    cases method with
    | kInvalid => exact absurd rfl h
    | _ => decide

theorem methodString_no_space (m : Method) : (32 : Byte) ∉ methodString m := by
  cases m <;> decide

theorem setMethod_new {r : HttpRequest} (h : r.method = .kInvalid) (m : Bytes) :
    r.setMethod m = .ok (decide (methodOf m ≠ .kInvalid), { r with method := methodOf m }) := by
  rw [setMethod, assert_true h]
  rfl

/-- The assertion of `setMethod`. -/
theorem setMethod_again {r : HttpRequest} (h : r.method ≠ .kInvalid) (m : Bytes) :
    r.setMethod m = .error .assertion := by
  rw [setMethod, assert, if_neg h]
  rfl

end HttpRequest
end Muduo.Http
