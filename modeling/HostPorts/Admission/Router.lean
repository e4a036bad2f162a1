import HostPorts.Admission.Rules
import HostPorts.Json.Reader

/-!
Admission over HTTP. Each review has its path and is posted as JSON; everything else is answered by
a status alone.
-/
namespace HostPorts.Admission

structure HttpRequest where
  method : String
  uri : String
  contentType : Option String
  body : String

inductive HttpAnswer where
  | status (code : Nat)
  | text (body : String)
  | review (response : Response)

inductive Route where
  | health
  | admission (action : Action) (kind : Kind)
  deriving DecidableEq

def pathOf (uri : String) : String :=
  String.ofList (uri.toList.takeWhile fun c => c ≠ '?' ∧ c ≠ '#')

def routes : List (String × Route) :=
  ("/healthz", .health) ::
    (Kind.all.map fun k => ("/mutate/" ++ k.plural, .admission .mutate k)) ++
    (Kind.reconciled.map fun k => ("/validate/" ++ k.plural, .admission .validate k))

def Route.ofPath? (path : String) : Option Route := findEntry path routes

/-- `application/json` or a type that ends in `+json`, parameters aside. -/
def isJsonType (contentType : String) : Bool :=
  let essence := (contentType.toList.takeWhile fun c => c ≠ ';' ∧ c ≠ ' ').map Char.toLower
  match "application/".toList.isPrefixOf? essence with
  | none => false
  | some subtype => subtype = "json".toList || "+json".toList.isSuffixOf subtype

inductive BodyError where
  | notJson
  | notAReview
  deriving DecidableEq

/-- Reads a review from a text. A first value that is no object is the wrong thing whatever comes
after it; after a review nothing but blanks may follow. -/
def readBody (k : Kind) (body : String) : Except BodyError (Review k) :=
  let text := body.toList.dropWhile Json.isBlank
  match Json.readFirst? text with
  | none => if text.head? = some '[' then .error .notAReview else .error .notJson
  | some (j, rest) =>
    match Review.read? k j with
    | none => .error .notAReview
    | some review => if rest.all Json.isBlank then .ok review else .error .notJson

def answerReview (prefixes : AnnotationPrefixes) (action : Action) (k : Kind) (r : HttpRequest) :
    Pass HttpAnswer :=
  if !r.contentType.any isJsonType then .done (.status 415)
  else
    match readBody k r.body with
    | .error .notJson => .done (.status 400)
    | .error .notAReview => .done (.status 422)
    | .ok review => (respond prefixes action k review).bind fun response =>
        .done (.review response)

def handle (prefixes : AnnotationPrefixes) (r : HttpRequest) : Pass HttpAnswer :=
  match Route.ofPath? (pathOf r.uri) with
  | none => .done (.status 404)
  | some .health =>
    if r.method = "GET" then .done (.text "ok")
    else if r.method = "HEAD" then .done (.text "")
    else .done (.status 405)
  | some (.admission action k) =>
    if r.method = "POST" then answerReview prefixes action k r else .done (.status 405)

inductive ServiceError where
  | invalidReview (detail : String)
  | patch (detail : String)

def ServiceError.code : ServiceError → Nat
  | .invalidReview _ => 400
  | .patch _ => 500

def ServiceError.message : ServiceError → String
  | .invalidReview detail => "invalid admission review: " ++ detail
  | .patch detail => "patch error: " ++ detail

def ServiceError.body (e : ServiceError) : Json := .obj [("error", .str e.message)]

end HostPorts.Admission
