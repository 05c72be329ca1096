import NotificationService.Api.System

/-! The exception handlers of the application. A body that fails the validation is answered before
its endpoint is called; the validation itself is FastAPI's and pydantic's, and a parameter here. -/
namespace NotificationService.Api

variable {V : Type}

/-- A part of the location of an error: a field, or an index in a list. -/
inductive LocPart where
  | field (name : String)
  | index (n : ℕ)
  deriving DecidableEq, Repr

def LocPart.str : LocPart → String
  | .field name => name
  | .index n => toString n

/-- An entry of `exc.errors()`, and whether all of it has a JSON form: the input that it quotes may
hold NaN or bytes. -/
structure FieldError where
  loc : List LocPart
  located : loc ≠ []
  msg : String
  serializable : Bool
  deriving DecidableEq, Repr

/-- The status, the `Retry-After` header, and the code, message and details of the body. -/
structure ErrorResponse where
  statusCode : ℕ
  retryAfter : Option String
  code : String
  message : String
  details : Option (List FieldError)
  deriving DecidableEq, Repr

/-- `general_unhandled_error_handler`. -/
def unhandledResponse : ErrorResponse :=
  ⟨500, none, "INTERNAL_SERVER_ERROR", "An unexpected error occurred on the server.", none⟩

/-- `starlette_http_error_handler`, `rate_limit_error_handler`, and the handler of the rest. -/
def ApiError.response : ApiError → ErrorResponse
  | .http statusCode detail => ⟨statusCode, none, "HTTP_" ++ toString statusCode, detail, none⟩
  | .rateLimitExceeded retryAfter =>
    ⟨429, some (toString retryAfter), "RATE_LIMIT_EXCEEDED",
      "Rate limit exceeded. Retry after " ++ toString retryAfter ++ " seconds.", none⟩
  | .exception _ => unhandledResponse

def validationMessage : List FieldError → String
  | [] => "Request validation failed."
  | e :: _ => "Validation failed: Field '" ++ (e.loc.getLast e.located).str ++ "' " ++ e.msg

/-- `request_validation_error_handler`. Where the details have no JSON form its `JSONResponse`
raises. -/
def validationResponse (errors : List FieldError) : ErrorResponse :=
  if errors.all (·.serializable) then
    ⟨400, none, "BAD_REQUEST", validationMessage errors, some errors⟩
  else unhandledResponse

theorem validationResponse_cases (errors : List FieldError) :
    ((∀ e ∈ errors, e.serializable = true) ∧ validationResponse errors =
      ⟨400, none, "BAD_REQUEST", validationMessage errors, some errors⟩) ∨
    ((∃ e ∈ errors, e.serializable = false) ∧ validationResponse errors = unhandledResponse) := by
  unfold validationResponse
  split
  case isTrue hall => exact Or.inl ⟨List.all_eq_true.mp hall, rfl⟩
  case isFalse hsome => exact Or.inr ⟨by simpa using hsome, rfl⟩

/-- `status_code=201` of the route, or that of a cached response, or that of the error. -/
def Response.statusCode : Response V → ℕ
  | .created _ => 201
  | .cached statusCode _ => statusCode
  | .error e => e.response.statusCode

/-- A `POST` as it comes: the header and the body. -/
structure Post (B : Type) where
  key : Option String
  body : B
  deriving DecidableEq, Repr

/-- The validation of the body, before `send_notification` is called. -/
def Post.check {B : Type} (validate : B → Except (List FieldError) (NotificationRequest V))
    (p : Post B) : Except (List FieldError) (Action V) :=
  (validate p.body).map (.request p.key)

end NotificationService.Api
