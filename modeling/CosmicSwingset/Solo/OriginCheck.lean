import CosmicSwingset.Solo.Startup

/-!
# The check of the `Origin` header

`web.js` asks `validateOrigin` about every upgrade and every POST to `/vat` before anything else is
done for them. It takes the header apart with the URL constructor, which throws on what is not an
absolute URL, and nobody has a `try` around it: express answers such a POST with an error of the
server, and at an upgrade the exception is thrown by a listener of `upgrade`, where it ends the
process. `validateOrigin` gives the three cases the names that `Startup` has for them.

So the check is as intended (`ExactCheck`) exactly for those requests that have no `Origin`, an
empty one or one that is a URL (`exactCheck_iff_readable`). Which requests are let through is right
in any case (`validateOrigin_permitted_iff`).

The URL constructor is a parameter (`UrlConstructor`). Bodies have been read by express; a POST with
a body that is no JSON never gets to the handler.
-/

set_option autoImplicit false
set_option relaxedAutoImplicit false

namespace CosmicSwingset.Solo

open Foundation

variable {ν : Type*}

/-- What the check reads of a URL. -/
structure Url where
  protocol : String
  hostname : String
  deriving DecidableEq

/-- `new URL(input)`, or `none` where it throws, as it does for what is no absolute URL. -/
structure UrlConstructor where
  new : String → Option Url
  new_empty : new "" = none

/-- `hostname.match(/^(localhost|127\.0\.0\.1)$/)`. -/
def isLocalhost (hostname : String) : Bool :=
  hostname = "localhost" || hostname = "127.0.0.1"

theorem isLocalhost_iff (hostname : String) :
    isLocalhost hostname = true ↔ hostname = "localhost" ∨ hostname = "127.0.0.1" := by
  simp [isLocalhost]

/-- `validateOrigin(req)`, of the header if there is one. -/
def validateOrigin (urls : UrlConstructor) (origin : Option String) : Origin :=
  match origin.filter fun header ↦ header ≠ "" with
  | none => .refused
  | some header =>
    match urls.new header with
    | none => .malformed
    | some url =>
      if !isLocalhost url.hostname then .refused
      else if url.protocol ≠ "http:" ∧ url.protocol ≠ "https:" then .refused
      else .permitted

/-- A request that is asked for its `Origin`; that of a POST has a body. -/
inductive Request (ν : Type*)
  | upgrade
  | post (body : Json ν)

/-- What becomes of a request. Express makes an answer with status 500 of an exception of its
handler; what a listener of `upgrade` throws is not caught. -/
inductive Handled (ν : Type*)
  | handleUpgrade
  | inboundCommand (body : Json ν)
  | destroyed
  | json (response : Json ν)
  | serverError
  | uncaught

/-- The listener of `upgrade` and the handler of `POST /vat`. -/
def handleRequest (urls : UrlConstructor) (request : Request ν) (origin : Option String) :
    Handled ν :=
  match request, validateOrigin urls origin with
  | .upgrade, .permitted => .handleUpgrade
  | .upgrade, .refused => .destroyed
  | .upgrade, .malformed => .uncaught
  | .post body, .permitted => .inboundCommand body
  | .post _, .refused => .json (.obj [("ok", .bool false), ("rej", .str "Invalid Origin")])
  | .post _, .malformed => .serverError

/-- The request goes on to where it is for. -/
def Handled.LetThrough (request : Request ν) (handled : Handled ν) : Prop :=
  match request with
  | .upgrade => handled = .handleUpgrade
  | .post body => handled = .inboundCommand body

/-- The request is turned away, and the server keeps running. -/
def Handled.Refused (request : Request ν) (handled : Handled ν) : Prop :=
  match request with
  | .upgrade => handled = .destroyed
  | .post _ => ∃ response, handled = .json response ∧ response.property "ok" = some (.bool false)

/-- The header is a URL of this machine. -/
def PermittedOrigin (urls : UrlConstructor) (origin : Option String) : Prop :=
  ∃ header url, origin = some header ∧ urls.new header = some url ∧
    (url.protocol = "http:" ∨ url.protocol = "https:") ∧
    (url.hostname = "localhost" ∨ url.hostname = "127.0.0.1")

/-- Requests of a permitted origin are let through, and no others; these are refused. -/
def ExactCheck (urls : UrlConstructor) (request : Request ν) (origin : Option String) : Prop :=
  let handled := handleRequest urls request origin
  (handled.LetThrough request ↔ PermittedOrigin urls origin) ∧
    (¬ PermittedOrigin urls origin → handled.Refused request)

/-- There is no header, or nothing in it, or a URL. -/
def ReadableOrigin (urls : UrlConstructor) (origin : Option String) : Prop :=
  origin = none ∨ origin = some "" ∨ ∃ header url, origin = some header ∧ urls.new header = some url

/-- One lemma for each branch of the check. -/
theorem validateOrigin_of_missing {urls : UrlConstructor} {origin : Option String}
    (h : origin = none ∨ origin = some "") : validateOrigin urls origin = .refused := by
  rcases h with rfl | rfl <;> rfl

theorem validateOrigin_of_url {urls : UrlConstructor} {header : String} {url : Url}
    (hurl : urls.new header = some url) :
    validateOrigin urls (some header) =
      if (url.protocol = "http:" ∨ url.protocol = "https:") ∧
          (url.hostname = "localhost" ∨ url.hostname = "127.0.0.1") then .permitted
      else .refused := by
  have hne : header ≠ "" := by
    rintro rfl
    simp [urls.new_empty] at hurl
  have hfilter : (some header).filter (fun header ↦ header ≠ "") = some header := by
    simp [hne]
  simp only [validateOrigin, hfilter, hurl, Bool.not_eq_true', ← not_or, ← isLocalhost_iff]
  by_cases hhost : isLocalhost url.hostname = true <;>
    by_cases hprotocol : url.protocol = "http:" ∨ url.protocol = "https:" <;>
      simp [hhost, hprotocol]

theorem validateOrigin_of_not_url {urls : UrlConstructor} {header : String} (hne : header ≠ "")
    (hurl : urls.new header = none) : validateOrigin urls (some header) = .malformed := by
  have hfilter : (some header).filter (fun header ↦ header ≠ "") = some header := by
    simp [hne]
  simp only [validateOrigin, hfilter, hurl]

/-- The header is missing or empty, a URL, or neither. -/
theorem origin_cases (urls : UrlConstructor) (origin : Option String) :
    (origin = none ∨ origin = some "") ∨
      (∃ header url, origin = some header ∧ urls.new header = some url) ∨
      ∃ header, origin = some header ∧ header ≠ "" ∧ urls.new header = none := by
  match origin with
  | none => exact Or.inl (Or.inl rfl)
  | some header =>
    by_cases hne : header = ""
    · exact Or.inl (Or.inr (congrArg some hne))
    · cases hurl : urls.new header with
      | none => exact Or.inr (Or.inr ⟨header, rfl, hne, hurl⟩)
      | some url => exact Or.inr (Or.inl ⟨header, url, rfl, hurl⟩)

theorem validateOrigin_permitted_iff (urls : UrlConstructor) (origin : Option String) :
    validateOrigin urls origin = .permitted ↔ PermittedOrigin urls origin := by
  rcases origin_cases urls origin with hmissing | ⟨header, url, rfl, hurl⟩ |
    ⟨header, rfl, hne, hurl⟩
  · rw [validateOrigin_of_missing hmissing]
    refine iff_of_false (by simp) ?_
    rintro ⟨header, url, hheader, hurl, -⟩
    rcases hmissing with rfl | rfl
    · simp at hheader
    · simp [← Option.some.inj hheader, urls.new_empty] at hurl
  · rw [validateOrigin_of_url hurl, ite_eq_left_iff]
    simp only [PermittedOrigin, Option.some.injEq, reduceCtorEq, imp_false, not_not]
    constructor
    · exact fun hlocal ↦ ⟨header, url, rfl, hurl, hlocal⟩
    · rintro ⟨header', url', rfl, hurl', hlocal⟩
      exact Option.some.inj (hurl.symm.trans hurl') ▸ hlocal
  · rw [validateOrigin_of_not_url hne hurl]
    simp [PermittedOrigin, hurl]

theorem validateOrigin_malformed_iff (urls : UrlConstructor) (origin : Option String) :
    validateOrigin urls origin = .malformed ↔ ¬ ReadableOrigin urls origin := by
  rcases origin_cases urls origin with hmissing | ⟨header, url, rfl, hurl⟩ |
    ⟨header, rfl, hne, hurl⟩
  · rw [validateOrigin_of_missing hmissing]
    exact iff_of_false (by simp) (not_not.mpr (hmissing.imp_right Or.inl))
  · rw [validateOrigin_of_url hurl]
    refine iff_of_false (by split_ifs <;> simp) (not_not.mpr ?_)
    exact Or.inr (Or.inr ⟨header, url, rfl, hurl⟩)
  · rw [validateOrigin_of_not_url hne hurl]
    simp [ReadableOrigin, hne, hurl]

/-- The check is as intended exactly for the requests whose `Origin` is missing, empty or a URL. -/
theorem exactCheck_iff_readable (urls : UrlConstructor) (request : Request ν)
    (origin : Option String) : ExactCheck urls request origin ↔ ReadableOrigin urls origin := by
  have hpermitted := validateOrigin_permitted_iff urls origin
  have hmalformed := validateOrigin_malformed_iff urls origin
  rw [ExactCheck, ← hpermitted, ← not_not (a := ReadableOrigin urls origin), ← hmalformed]
  cases request with
  | upgrade =>
    cases hresult : validateOrigin urls origin <;>
      simp [handleRequest, hresult, Handled.LetThrough, Handled.Refused]
  | post body =>
    have hok : Json.member "ok" [("ok", .bool false), ("rej", .str "Invalid Origin")] =
        some (.bool false : Json ν) := rfl
    cases hresult : validateOrigin urls origin <;>
      simp [handleRequest, hresult, Handled.LetThrough, Handled.Refused, Json.property, hok]

/-- A constructor that knows the url of the solo node. -/
def UrlConstructor.local : UrlConstructor where
  new input := if input = "http://localhost:8000" then some ⟨"http:", "localhost"⟩ else none
  new_empty := by decide

/-- A page of an opaque origin asks for an upgrade. -/
theorem not_exactCheck_null_origin :
    ¬ ExactCheck UrlConstructor.local (Request.upgrade : Request ℕ) (some "null") := by
  intro h
  have hforeign : ¬ PermittedOrigin UrlConstructor.local (some "null") := by
    rw [← validateOrigin_permitted_iff]
    decide
  have hrefused : handleRequest .local (Request.upgrade : Request ℕ) (some "null") = .destroyed :=
    h.2 hforeign
  have huncaught : handleRequest .local (Request.upgrade : Request ℕ) (some "null") = .uncaught :=
    rfl
  have hsame := hrefused.symm.trans huncaught
  contradiction

end CosmicSwingset.Solo
