import Muduo.Base.LogTime
import Muduo.Http.Transcript

/-! The server of `test/HttpServer.cpp`, as its clients see it. -/
namespace Muduo.Http.SampleServer
open Muduo.Base Muduo.Net Muduo.Support
open HttpConnection
open Session (closes response)
open Pipelining (Incomplete stream OneEach)

/-- What `onRequest` finds when it runs; `ftell` gives an `int`. -/
structure World where
  favicon : Bytes
  now : Timestamp
  /-- The file `../img/sanzo.jpg`. -/
  image : Option Bytes
  faviconSize : favicon.length = 555
  imageSize : ∀ file ∈ image, file.length < 2 ^ 31

def html (now : Timestamp) : Bytes :=
  text "<html><head><title>This is title</title></head><body><h1>Hello</h1>Now is " ++
    now.toFormattedString true ++ text "</body></html>"

/-- The branches that find nothing. -/
def notFound (resp : HttpResponse) : HttpResponse :=
  ((((resp.setStatusCode .k404NotFound).setStatusMessage (text "Not Found")).setCloseConnection
    true).setContentType (text "text/plain")).addHeader (text "Server") (text "Muduo")
    |>.setBody (text "Not Found!\n")

/-- `onRequest` but for what it prints. -/
def onRequest (w : World) : HttpCallback := fun req resp =>
  let ok := (resp.setStatusCode .k200Ok).setStatusMessage (text "OK")
  if req.path = text "/" then
    ((ok.setContentType (text "text/html")).addHeader (text "Server") (text "Muduo")).setBody
      (html w.now)
  else if req.path = text "/favicon.ico" then
    (ok.setContentType (text "image/png")).setBody w.favicon
  else if req.path = text "/hello" then
    ((ok.setContentType (text "text/plain")).addHeader (text "Server") (text "Muduo")).setBody
      (text "hello, world!\n")
  else if req.path = text "/sanzo.jpg" then
    match w.image with
    | none => notFound resp
    | some file => (ok.setContentType (text "image/jpg")).setBody file
  else notFound resp

/-- The pages of the server. -/
def World.page (w : World) (path : Bytes) : Option Bytes :=
  if path = text "/" then some (html w.now)
  else if path = text "/favicon.ico" then some w.favicon
  else if path = text "/hello" then some (text "hello, world!\n")
  else if path = text "/sanzo.jpg" then w.image
  else none

/-- What a client is to be shown: the page, or that there is none. -/
def World.shown (w : World) (path : Bytes) : Nat × Bytes :=
  match w.page path with
  | some body => (200, body)
  | none => (404, text "Not Found!\n")

/-- The request does not ask for the connection to be closed, and its page is there. -/
def stays (w : World) (req : HttpRequest) : Prop := closes req = false ∧ (w.page req.path).isSome

/-- A response that fits the format, shows its page, and closes the connection if it is
to. -/
structure Fits (w : World) (req : HttpRequest) (r : HttpResponse) : Prop where
  framed : r.Framed
  shown : (r.statusCode.value, r.body) = w.shown req.path
  close : r.closeConnection = (closes req || (w.page req.path).isNone)

theorem html_short (now : Timestamp) : (html now).length < 2 ^ 31 := by
  have hnow : (now.toFormattedString true).length ≤ 63 := by
    rw [Timestamp.toFormattedString, if_pos rfl]
    exact List.length_take_le _ _
  have hbefore : (text
      "<html><head><title>This is title</title></head><body><h1>Hello</h1>Now is ").length = 74 := by
    decide
  have hafter : (text "</body></html>").length = 14 := by decide
  rw [html, List.length_append, List.length_append]
  omega

variable {w : World} {req : HttpRequest} {r : HttpResponse}

theorem fits_page {body : Bytes} (hp : w.page req.path = some body)
    (hc : r.closeConnection = closes req) (hs : r.statusCode = .k200Ok) (hf : r.Framed)
    (hb : body.length < 2 ^ 31) : Fits w req (r.setBody body) := by
  refine ⟨⟨hf.message, hf.key, hf.value, hf.own, hb⟩, ?_, ?_⟩
  · rw [World.shown, hp, HttpResponse.setBody, hs]
    rfl
  · rw [hp]
    exact hc.trans (Bool.or_false _).symm

theorem fits_notFound (hp : w.page req.path = none) :
    Fits w req (notFound (.new (closes req))) := by
  refine ⟨?_, ?_, ?_⟩
  · cases closes req <;> constructor <;> decide
  · rw [World.shown, hp]
    rfl
  · rw [hp]
    exact (Bool.or_true _).symm

/-- Branch by branch, `onRequest` builds a response that fits. -/
theorem onRequest_fits (w : World) (req : HttpRequest) :
    Fits w req (response (onRequest w) req) := by
  rw [response, onRequest]
  by_cases hroot : req.path = text "/"
  · rw [if_pos hroot]
    refine fits_page (if_pos hroot) rfl rfl ?_ (html_short w.now)
    cases closes req <;> constructor <;> decide
  rw [if_neg hroot]
  by_cases hicon : req.path = text "/favicon.ico"
  · rw [if_pos hicon]
    refine fits_page ?_ rfl rfl ?_ (w.faviconSize.trans_lt (by decide))
    · rw [World.page, if_neg hroot, if_pos hicon]
    · cases closes req <;> constructor <;> decide
  rw [if_neg hicon]
  by_cases hhello : req.path = text "/hello"
  · rw [if_pos hhello]
    refine fits_page ?_ rfl rfl ?_ (by decide)
    · rw [World.page, if_neg hroot, if_neg hicon, if_pos hhello]
    · cases closes req <;> constructor <;> decide
  rw [if_neg hhello]
  by_cases himage : req.path = text "/sanzo.jpg"
  · rw [if_pos himage]
    have hpage : w.page req.path = w.image := by
      rw [World.page, if_neg hroot, if_neg hicon, if_neg hhello, if_pos himage]
    cases hfile : w.image with
    | none => exact fits_notFound (hpage.trans hfile)
    | some file =>
      refine fits_page (hpage.trans hfile) rfl rfl ?_ (w.imageSize file hfile)
      cases closes req <;> constructor <;> decide
  · rw [if_neg himage]
    apply fits_notFound
    rw [World.page, if_neg hroot, if_neg hicon, if_neg hhello, if_neg himage]

/-- The page that the response to a request shows. -/
def shownBy (world : Delivery → World) (req : HttpRequest) (p : Head × Delivery) : Nat × Bytes :=
  (world p.2).shown req.path

variable {t : HttpConnection} {tail : Bytes} {as : List Step} {heads : List Head}
  {ps : List (Head × Delivery)} {world : Delivery → World}

theorem map_shown {reqs : List HttpRequest}
    (hcb : ∀ p ∈ ps, p.2.httpCallback = onRequest (world p.2)) :
    ((reqs.zipWith reply ps).map HttpResponse.answer).map (fun a => (a.statusCode, a.body)) =
      reqs.zipWith (shownBy world) ps := by
  induction ps generalizing reqs with
  | nil => rw [List.zipWith_nil_right, List.zipWith_nil_right]; rfl
  | cons p ps ih =>
    obtain ⟨hp, hps⟩ := List.forall_mem_cons.mp hcb
    cases reqs with
    | nil => rfl
    | cons req reqs =>
      rw [List.zipWith_cons_cons, List.zipWith_cons_cons, List.map_cons, List.map_cons, ih hps]
      have hshown := (onRequest_fits (world p.2) req).shown
      rw [← hp] at hshown
      exact congrArg (· :: _) hshown

theorem mem_served {hs : List Head} {n : Nat} {ds : List Delivery} :
    ∀ p ∈ served hs n ds, p.2 ∈ ds := by
  induction ds generalizing hs n with
  | nil => cases hs <;> exact List.forall_mem_nil _
  | cons d ds ih =>
    cases hs with
    | nil => exact List.forall_mem_nil _
    | cons hd hs =>
      intro p hp
      rw [served] at hp
      split at hp
      · rcases List.mem_cons.mp hp with rfl | hp
        · exact List.mem_cons_self
        · exact List.mem_cons_of_mem _ (ih p hp)
      · exact List.mem_cons_of_mem _ (ih p hp)

/-- Clients of the sample server that send one head at most with each delivery, and of whose
requests only the last may ask for the connection to be closed or for a page that is not
there, read the pages they asked for, in order; a page that is not there is the last. -/
theorem pages_in_order (hr : machine.Run new (.connectEstablished :: as) t)
    (ht : Incomplete tail) (hw : Pipelining.bytes (deliveries as) = stream heads ++ tail)
    (hone : OneEach heads 0 (deliveries as)) (hps : ps = served heads 0 (deliveries as))
    (hcb : ∀ d ∈ deliveries as, d.httpCallback = onRequest (world d))
    (hstays : ∀ p ∈ ps.dropLast, stays (world p.2) (p.1.request .invalid))
    (hhealthy : machine.EveryStep new (.connectEstablished :: as) Healthy) :
    t.executed.map (·.setReceiveTime .invalid) = requests heads ∧
      (ResponseReader.readTranscript (t.conn.socket.accepted ++ t.conn.outputBuffer.readable)).map
        (List.map fun a => (a.statusCode, a.body)) =
          some (t.executed.zipWith (shownBy world) ps) := by
  have hworld : ∀ p ∈ ps, p.2.httpCallback = onRequest (world p.2) := by
    subst hps
    exact fun p hp => hcb p.2 (mem_served p hp)
  have hfits : ∀ p ∈ ps, ∀ time, Fits (world p.2) (p.1.request time)
      (reply (p.1.request time) p) := by
    intro p hp time
    rw [reply, hworld p hp]
    exact onRequest_fits _ _
  have hkeep : ∀ p ∈ ps.dropLast, ∀ time,
      (reply (p.1.request time) p).closeConnection = false := by
    intro p hp time
    obtain ⟨hclose, hpage⟩ := hstays p hp
    rw [← p.1.request_setReceiveTime time] at hclose hpage
    have hclose : closes (p.1.request time) = false := hclose
    have hpage : ((world p.2).page (p.1.request time).path).isSome = true := hpage
    rw [(hfits p (List.mem_of_mem_dropLast hp) time).close, hclose, Bool.false_or,
      Option.isNone_eq_false_iff]
    exact hpage
  obtain ⟨hreqs, _, hread, _⟩ := answers_in_order hr ht hw hone hps
    (fun p hp time => (hfits p hp time).framed) hkeep hhealthy
  refine ⟨hreqs, ?_⟩
  rw [hread, Option.map_some, map_shown hworld]

def bareWorld : World where
  favicon := List.replicate 555 0
  now := 0
  image := none
  faviconSize := List.length_replicate
  imageSize := fun _ h => absurd h (Option.not_mem_none _)

theorem get_known : Method.kGet ≠ .kInvalid := by decide

theorem http11_known : Version.kHttp11 ≠ .kUnknown := by decide

/-- The target fits into a request line. -/
def Plain (target : Bytes) : Prop := (32 : Byte) ∉ target ∧
  search kCRLF (HttpRequest.methodString .kGet ++ 32 :: (target ++ 32 :: versionString .kHttp11)) =
    none

def get (target : Bytes) (h : Plain target) : Head :=
  ⟨⟨.kGet, target, .kHttp11, get_known, http11_known, h.1, h.2⟩, []⟩

theorem hello_plain : Plain (text "/hello") := ⟨by decide, by decide⟩

theorem nothing_plain : Plain (text "/nothing") := ⟨by decide, by decide⟩

def getHello : Head := get (text "/hello") hello_plain

def getNothing : Head := get (text "/nothing") nothing_plain

/-- A page that is there, and one that is not. -/
def twoPages : List (Head × Delivery) :=
  [(getHello, ⟨getHello.bytes, 0, onRequest bareWorld⟩),
    (getNothing, ⟨getNothing.bytes, 1, onRequest bareWorld⟩)]

def twoDeliveries : List Step := twoPages.map fun p => .deliver p.2 tenBytes

theorem pages_in_order_sample : ∃ t : HttpConnection,
    (ResponseReader.readTranscript (t.conn.socket.accepted ++ t.conn.outputBuffer.readable)).map
      (List.map fun a => (a.statusCode, a.body)) =
        some (t.executed.zipWith (shownBy fun _ => bareWorld) twoPages) ∧
    t.executed.length = 2 ∧ t.conn.state = .kDisconnecting := by
  obtain ⟨t, hr, ht⟩ := machine.exists_run new (.connectEstablished :: twoDeliveries)
    (fun t => (t.executed.length, t.conn.state)) (2, .kDisconnecting) (by decide +kernel)
  obtain ⟨hex, hstate⟩ := Prod.mk.inj ht
  have hdeliveries : deliveries twoDeliveries = twoPages.map Prod.snd := rfl
  have hw : Pipelining.bytes (deliveries twoDeliveries) = stream [getHello, getNothing] ++ [] := by
    rw [hdeliveries, List.append_nil]
    rfl
  have hone : OneEach [getHello, getNothing] 0 (deliveries twoDeliveries) :=
    ⟨by decide, by decide, trivial⟩
  have hps : served [getHello, getNothing] 0 (deliveries twoDeliveries) = twoPages := by
    simp [hdeliveries, twoPages, served]
  have hcb : ∀ d ∈ deliveries twoDeliveries, d.httpCallback = onRequest ((fun _ => bareWorld) d) := by
    simp [hdeliveries, twoPages]
  have hstays : stays bareWorld (getHello.request .invalid) := ⟨by decide, by decide⟩
  have hhealthy : machine.EveryStep new (.connectEstablished :: twoDeliveries) Healthy :=
    Machine.everyStep_of_forall (by simp [twoDeliveries, twoPages, Healthy, tenBytes])
  have h := pages_in_order hr Pipelining.incomplete_nil hw hone hps.symm hcb
    (List.forall_mem_singleton.mpr hstays) hhealthy
  exact ⟨t, h.2, hex, hstate⟩

end Muduo.Http.SampleServer
