import Muduo.Http.HttpRequest

/-! `muduo::net::HttpResponse`. Strings are shorter than 2^31 bytes, so that a
`StringPiece` of one is all of it. -/
namespace Muduo.Http
open Muduo.Net Muduo.Support

inductive HttpStatusCode where
  | kUnknown | k200Ok | k301MoveedPermanently | k400BadRequest | k404NotFound
  deriving DecidableEq, Repr

def HttpStatusCode.value : HttpStatusCode → Nat
  | .kUnknown => 0
  | .k200Ok => 200
  | .k301MoveedPermanently => 301
  | .k400BadRequest => 400
  | .k404NotFound => 404

structure HttpResponse where
  headers : OrderedMap Bytes Bytes
  statusCode : HttpStatusCode
  statusMessage : Bytes
  closeConnection : Bool
  body : Bytes
  deriving DecidableEq

namespace HttpResponse

def new (close : Bool) : HttpResponse where
  headers := .empty
  statusCode := .kUnknown
  statusMessage := []
  closeConnection := close
  body := []

def setStatusCode (r : HttpResponse) (code : HttpStatusCode) : HttpResponse :=
  { r with statusCode := code }

def setStatusMessage (r : HttpResponse) (message : Bytes) : HttpResponse :=
  { r with statusMessage := message }

def setCloseConnection (r : HttpResponse) (on : Bool) : HttpResponse :=
  { r with closeConnection := on }

def addHeader (r : HttpResponse) (key value : Bytes) : HttpResponse :=
  { r with headers := r.headers.insert key value }

def setContentType (r : HttpResponse) (contentType : Bytes) : HttpResponse :=
  r.addHeader (text "Content-Type") contentType

def setBody (r : HttpResponse) (body : Bytes) : HttpResponse := { r with body }

/-- `snprintf` into `char buf[32]`. -/
def snprintf (s : String) : Bytes := (text s).take 31

def appendAll (output : Buffer) (parts : List Bytes) : Except Fault Buffer :=
  parts.foldlM Buffer.append output

/-- The strings that `appendToBuffer` appends, in order. -/
def parts (r : HttpResponse) : List Bytes :=
  [snprintf s!"HTTP/1.1 {r.statusCode.value} ", r.statusMessage, text "\r\n"] ++
  (if r.closeConnection then
    [text "Connection: close\r\n"]
  else
    [snprintf s!"Content-Length: {r.body.length}\r\n", text "Connection: Keep-ALive\r\n"]) ++
  (r.headers.entries.flatMap fun header => [header.1, text ": ", header.2, text "\r\n"]) ++
  [text "\r\n", r.body]

def appendToBuffer (r : HttpResponse) (output : Buffer) : Except Fault Buffer :=
  appendAll output r.parts

/-- What `appendToBuffer` writes. -/
def bytes (r : HttpResponse) : Bytes := r.parts.flatten

theorem appendToBuffer_spec (r : HttpResponse) {output : Buffer} (h : output.Inv) :
    ∃ b, r.appendToBuffer output = .ok b ∧ b.Inv ∧ b.readable = output.readable ++ r.bytes := by
  rw [appendToBuffer, bytes]
  induction r.parts generalizing output with
  | nil => exact ⟨output, rfl, h, by simp⟩
  | cons part parts ih =>
    obtain ⟨b₁, hok, hi, hr, _⟩ := Buffer.append_spec h part
    obtain ⟨b₂, hok', hi', hr'⟩ := ih hi
    refine ⟨b₂, ?_, hi', by rw [hr', hr, List.flatten_cons, List.append_assoc]⟩
    rw [appendAll, List.foldlM_cons, hok]
    exact hok'

end HttpResponse
end Muduo.Http
