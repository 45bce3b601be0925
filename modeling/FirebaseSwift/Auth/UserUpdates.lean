import FirebaseSwift.Auth.UserData
import Mathlib.Data.List.Induction

/-! The updates of a user's data. Each names the fields it touches, leaves the others as they are, and
makes of a field it touches something that depends on that field alone. So one field's value is made by
the updates of that field. -/

namespace FirebaseSwift.Auth

inductive UserField where
  | mfaEnrollments
  | isAnonymous
  | uid
  | displayName
  | photoURL
  | email
  | phoneNumber
  | hasEmailPasswordCredential
  | providerDataRaw
  | isEmailVerified
  | metadata
  | tenantID
  | tokenService
  | requestConfiguration
deriving DecidableEq, Repr

inductive UserUpdate where
  | mfaEnrollments (value : List AuthProtoMFAEnrollment)
  | isAnonymous (value : Bool)
  | uid (value : String)
  | displayName (value : Option String)
  | photoURL (value : Option String)
  | email (value : Option String)
  | phoneNumber (value : Option String)
  | hasEmailPasswordCredential (value : Bool)
  | providerDataRaw (value : List (String × UserInfoImpl))
  | removeProvider (provider : String)
  | isEmailVerified (value : Bool)
  | metadata (value : UserMetadata)
  | tenantID (value : Option String)
  | tokenService (value : SecureTokenService)
  | requestConfiguration (value : AuthRequestConfiguration)
  | useRequestConfiguration (configuration : AuthRequestConfiguration)
  | refreshedTokens (refreshToken : Option String) (refreshed : SecureTokenService)
deriving DecidableEq, Repr

namespace SecureTokenService

/-- The tokens of a refreshed copy, unless the user got a new token service meanwhile. -/
def withRefreshed (self : SecureTokenService) (refreshToken : Option String)
    (refreshed : SecureTokenService) : SecureTokenService :=
  if self.refreshToken = refreshToken then
    { self with
      accessToken := refreshed.accessToken
      accessTokenExpirationDate := refreshed.accessTokenExpirationDate
      refreshToken := refreshed.refreshToken }
  else self

end SecureTokenService

namespace UserUpdate

def apply (data : UserData) : UserUpdate → UserData
  | mfaEnrollments value => { data with mfaEnrollments := value }
  | isAnonymous value => { data with isAnonymous := value }
  | uid value => { data with uid := value }
  | displayName value => { data with displayName := value }
  | photoURL value => { data with photoURL := value }
  | email value => { data with email := value }
  | phoneNumber value => { data with phoneNumber := value }
  | hasEmailPasswordCredential value => { data with hasEmailPasswordCredential := value }
  | providerDataRaw value => { data with providerDataRaw := value }
  | removeProvider provider =>
      { data with providerDataRaw := SortedDictionary.remove provider data.providerDataRaw }
  | isEmailVerified value => { data with isEmailVerified := value }
  | metadata value => { data with metadata := value }
  | tenantID value => { data with tenantID := value }
  | tokenService value => { data with tokenService := value }
  | requestConfiguration value => { data with requestConfiguration := value }
  | useRequestConfiguration configuration =>
      { data with
        requestConfiguration := configuration
        tokenService.requestConfiguration := some configuration }
  | refreshedTokens refreshToken refreshed =>
      { data with tokenService := data.tokenService.withRefreshed refreshToken refreshed }

def touches : UserUpdate → UserField → Bool
  | mfaEnrollments _, .mfaEnrollments => true
  | isAnonymous _, .isAnonymous => true
  | uid _, .uid => true
  | displayName _, .displayName => true
  | photoURL _, .photoURL => true
  | email _, .email => true
  | phoneNumber _, .phoneNumber => true
  | hasEmailPasswordCredential _, .hasEmailPasswordCredential => true
  | providerDataRaw _, .providerDataRaw => true
  | removeProvider _, .providerDataRaw => true
  | isEmailVerified _, .isEmailVerified => true
  | metadata _, .metadata => true
  | tenantID _, .tenantID => true
  | tokenService _, .tokenService => true
  | requestConfiguration _, .requestConfiguration => true
  | useRequestConfiguration _, .requestConfiguration => true
  | useRequestConfiguration _, .tokenService => true
  | refreshedTokens _ _, .tokenService => true
  | _, _ => false

end UserUpdate

namespace UserData

/-- The two have the same value of the field. -/
def SameAt (self other : UserData) : UserField → Prop
  | .mfaEnrollments => self.mfaEnrollments = other.mfaEnrollments
  | .isAnonymous => self.isAnonymous = other.isAnonymous
  | .uid => self.uid = other.uid
  | .displayName => self.displayName = other.displayName
  | .photoURL => self.photoURL = other.photoURL
  | .email => self.email = other.email
  | .phoneNumber => self.phoneNumber = other.phoneNumber
  | .hasEmailPasswordCredential => self.hasEmailPasswordCredential = other.hasEmailPasswordCredential
  | .providerDataRaw => self.providerDataRaw = other.providerDataRaw
  | .isEmailVerified => self.isEmailVerified = other.isEmailVerified
  | .metadata => self.metadata = other.metadata
  | .tenantID => self.tenantID = other.tenantID
  | .tokenService => self.tokenService = other.tokenService
  | .requestConfiguration => self.requestConfiguration = other.requestConfiguration

variable (self : UserData) {field : UserField}

theorem SameAt.refl (field : UserField) : self.SameAt self field := by
  cases field <;> rfl

theorem SameAt.symm {self other : UserData} (h : self.SameAt other field) : other.SameAt self field := by
  cases field <;> exact Eq.symm h

theorem SameAt.trans {self other third : UserData} (h : self.SameAt other field)
    (h' : other.SameAt third field) : self.SameAt third field := by
  cases field <;> exact Eq.trans h h'

theorem eq_iff_sameAt {self other : UserData} : self = other ↔ ∀ field, self.SameAt other field := by
  constructor
  · rintro rfl field
    exact SameAt.refl self field
  · intro h
    cases self
    cases other
    simp only [mk.injEq]
    exact ⟨h .mfaEnrollments, h .isAnonymous, h .uid, h .displayName, h .photoURL, h .email,
      h .phoneNumber, h .hasEmailPasswordCredential, h .providerDataRaw, h .isEmailVerified, h .metadata,
      h .tenantID, h .tokenService, h .requestConfiguration⟩

/-- Apply the updates one after the other. -/
def applyAll (self : UserData) (updates : List UserUpdate) : UserData := updates.foldl UserUpdate.apply self

@[simp] theorem applyAll_nil : self.applyAll [] = self := rfl

theorem applyAll_append (updates : List UserUpdate) (update : UserUpdate) :
    self.applyAll (updates ++ [update]) = update.apply (self.applyAll updates) := by
  rw [applyAll, List.foldl_append]
  rfl

end UserData

namespace UserUpdate

open UserData

variable {field : UserField}

theorem apply_sameAt_of_not_touches {update : UserUpdate} (h : update.touches field = false) (data : UserData) :
    (update.apply data).SameAt data field := by
  cases update <;> cases field <;> first | exact rfl | exact absurd h.symm Bool.false_ne_true

theorem apply_sameAt {data other : UserData} (update : UserUpdate) (h : data.SameAt other field) :
    (update.apply data).SameAt (update.apply other) field := by
  cases htouches : update.touches field with
  | false =>
      exact ((apply_sameAt_of_not_touches htouches data).trans h).trans
        (apply_sameAt_of_not_touches htouches other).symm
  | true =>
      cases update <;> cases field <;>
        first | exact absurd htouches Bool.false_ne_true | exact rfl | skip
      case removeProvider.providerDataRaw provider => exact congrArg (SortedDictionary.remove provider) h
      case useRequestConfiguration.tokenService configuration =>
        exact congrArg (fun service : SecureTokenService =>
          { service with requestConfiguration := some configuration }) h
      case refreshedTokens.tokenService refreshToken refreshed =>
        exact congrArg (fun service => service.withRefreshed refreshToken refreshed) h

end UserUpdate

/-- Updates of other fields do not matter to a field. -/
theorem UserData.applyAll_sameAt_filter (self : UserData) (field : UserField) (updates : List UserUpdate) :
    (self.applyAll updates).SameAt
      (self.applyAll (updates.filter fun update => update.touches field)) field := by
  induction updates using List.reverseRecOn with
  | nil => exact UserData.SameAt.refl self field
  | append_singleton updates update ih =>
      rw [List.filter_append, applyAll_append]
      cases htouches : update.touches field with
      | false =>
          rw [List.filter_singleton, htouches, Bool.cond_false, List.append_nil]
          exact (update.apply_sameAt_of_not_touches htouches _).trans ih
      | true =>
          rw [List.filter_singleton, htouches, Bool.cond_true, applyAll_append]
          exact update.apply_sameAt ih

end FirebaseSwift.Auth
