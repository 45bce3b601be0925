import FirebaseSwift.Auth.Accesses

/-! Fetching access tokens. A request to the backend is made for a copy of the token service; the copy with
the new tokens is part of the result. -/

namespace FirebaseSwift.Auth

open AccessPrograms

namespace Code

def date : Code Date := Program.request Access.date

/-- The result or the error of the code, which itself does not throw. -/
def attempt {β : Type} (code : Code β) : Code (Except AuthErrorCode β) :=
  tryCatch (do return .ok (← code)) fun error => pure (.error error)

def when (condition : Prop) [Decidable condition] (code : Code Unit) : Code Unit :=
  if condition then code else pure ()

end Code

namespace SecureTokenService

def fiveMinutes : Int := 5 * 60

def hasValidAccessToken (self : SecureTokenService) : Code Bool :=
  match self.accessTokenExpirationDate with
  | some accessTokenExpirationDate => do
      let now ← Code.date
      return decide (accessTokenExpirationDate - now > fiveMinutes)
  | none => pure false

def hasValidAccessTokenUnless (self : SecureTokenService) (forceRefresh : Bool) : Code Bool :=
  if forceRefresh then pure false else self.hasValidAccessToken

/-- What a response changes. The result is the access token and whether a token is new. -/
def accept (self : SecureTokenService) (response : SecureTokenResponse) :
    SecureTokenService × String × Bool :=
  let hasNewAccessToken :=
    decide (response.accessToken ≠ "") && decide (response.accessToken ≠ self.accessToken)
  let updated :=
    if hasNewAccessToken then
      { self with
        accessToken := response.accessToken
        accessTokenExpirationDate := response.approximateExpirationDate }
    else self
  match response.refreshToken with
  | some newRefreshToken =>
      if some newRefreshToken ≠ self.refreshToken then
        ({ updated with refreshToken := some newRefreshToken }, response.accessToken, true)
      else (updated, response.accessToken, hasNewAccessToken)
  | none => (updated, response.accessToken, hasNewAccessToken)

/-- The new access token has expired already, or is about to. -/
def isStale (self : SecureTokenService) (retryIfExpired : Bool) (response : SecureTokenResponse) : Code Bool :=
  if retryIfExpired = true ∧ response.accessToken ≠ "" ∧ response.accessToken ≠ self.accessToken then
    match response.tokenExpirationDate with
    | some expirationDate => do
        let now ← Code.date
        return decide (expirationDate - now ≤ fiveMinutes)
    | none => pure false
  else pure false

def missingTokens : String := "refreshToken and requestConfiguration should not be nil"

def requestOnce (self : SecureTokenService) : Code SecureTokenResponse :=
  match self.refreshToken, self.requestConfiguration with
  | some refreshToken, some requestConfiguration =>
      Code.post (.secureToken refreshToken) requestConfiguration
  | _, _ => Program.trap missingTokens

/-- The request is retried once, since a device whose clock is wrong would retry for ever. -/
def requestAccessToken (self : SecureTokenService) (retryIfExpired : Bool) :
    Code (SecureTokenService × String × Bool) := do
  let response ← self.requestOnce
  let stale ← self.isStale retryIfExpired response
  if stale then
    let response ← self.requestOnce
    return self.accept response
  else return self.accept response

def fetchAccessToken (self : SecureTokenService) (forceRefresh : Bool) :
    Code (SecureTokenService × String × Bool) := do
  let valid ← self.hasValidAccessTokenUnless forceRefresh
  if valid then return (self, self.accessToken, false)
  else self.requestAccessToken true

end SecureTokenService

end FirebaseSwift.Auth
