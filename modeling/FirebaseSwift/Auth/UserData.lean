import FirebaseSwift.Library.SortedDictionary

/-! The data of a user, and what of it is stored. The request configuration is not stored, except for the
API key and the app ID, and an expiration date that is too far ahead is dropped when it is read. -/

namespace FirebaseSwift.Auth

/-- Seconds on the device's clock. -/
abbrev Date := Int

structure AuthRequestConfiguration where
  apiKey : String
  appID : String
  languageCode : Option String := none
  additionalFrameworkMarker : Option String := none
  emulatorHostAndPort : Option String := none
  tenantId : Option String := none
deriving DecidableEq, Repr

structure SecureTokenService where
  requestConfiguration : Option AuthRequestConfiguration
  accessToken : String
  accessTokenExpirationDate : Option Date
  refreshToken : Option String
deriving DecidableEq, Repr

structure UserInfoImpl where
  providerID : String
  uid : String
  displayName : Option String
  photoURL : Option String
  email : Option String
  phoneNumber : Option String
deriving DecidableEq, Repr

structure UserMetadata where
  lastSignInDate : Option Date := none
  creationDate : Option Date := none
deriving DecidableEq, Repr

structure AuthProtoMFAEnrollment where
  phoneInfo : Option String
  isTOTP : Bool
  mfaEnrollmentID : Option String
  displayName : Option String
  enrolledAt : Option Date
deriving DecidableEq, Repr

structure UserData where
  mfaEnrollments : List AuthProtoMFAEnrollment
  isAnonymous : Bool
  uid : String
  displayName : Option String
  photoURL : Option String
  email : Option String
  phoneNumber : Option String
  hasEmailPasswordCredential : Bool
  providerDataRaw : List (String × UserInfoImpl)
  isEmailVerified : Bool
  metadata : UserMetadata
  tenantID : Option String
  tokenService : SecureTokenService
  requestConfiguration : AuthRequestConfiguration
deriving DecidableEq, Repr

namespace AuthTokenLifetime

def maximum : Int := 24 * 60 * 60

/-- A date in the past is in range; the token has expired. -/
def isInRange (now expirationDate : Date) : Bool := decide (expirationDate - now ≤ maximum)

end AuthTokenLifetime

/-- The keys under which a token service is stored. -/
structure StoredTokenService where
  refreshToken : Option String
  accessToken : String
  accessTokenExpirationDate : Option Date
deriving DecidableEq, Repr

/-- The keys under which a user is stored. Users stored by earlier versions lack some. -/
structure StoredUser where
  uid : String
  isAnonymous : Bool
  hasEmailPasswordCredential : Bool
  providerData : Option (List (String × UserInfoImpl))
  email : Option String
  phoneNumber : Option String
  isEmailVerified : Bool
  photoURL : Option String
  displayName : Option String
  metadata : Option UserMetadata
  tenantID : Option String
  apiKey : Option String
  appID : Option String
  tokenService : StoredTokenService
  multiFactor : Option (List AuthProtoMFAEnrollment)
deriving DecidableEq, Repr

namespace SecureTokenService

def encode (self : SecureTokenService) : StoredTokenService where
  refreshToken := self.refreshToken
  accessToken := self.accessToken
  accessTokenExpirationDate := self.accessTokenExpirationDate

def decode (now : Date) (stored : StoredTokenService) : SecureTokenService where
  requestConfiguration := none
  accessToken := stored.accessToken
  accessTokenExpirationDate := stored.accessTokenExpirationDate.filter (AuthTokenLifetime.isInRange now)
  refreshToken := stored.refreshToken

/-- The token fetch that cannot trap. -/
def IsUsable (self : SecureTokenService) : Prop :=
  self.requestConfiguration.isSome = true ∧ self.refreshToken.isSome = true

instance (self : SecureTokenService) : Decidable self.IsUsable := inferInstanceAs (Decidable (_ ∧ _))

end SecureTokenService

namespace UserData

def withTokenService (tokenService : SecureTokenService) : UserData where
  mfaEnrollments := []
  isAnonymous := false
  uid := ""
  displayName := none
  photoURL := none
  email := none
  phoneNumber := none
  hasEmailPasswordCredential := false
  providerDataRaw := []
  isEmailVerified := false
  metadata := {}
  tenantID := none
  tokenService := tokenService
  requestConfiguration := { apiKey := "", appID := "" }

def encode (self : UserData) : StoredUser where
  uid := self.uid
  isAnonymous := self.isAnonymous
  hasEmailPasswordCredential := self.hasEmailPasswordCredential
  providerData := some self.providerDataRaw
  email := self.email
  phoneNumber := self.phoneNumber
  isEmailVerified := self.isEmailVerified
  photoURL := self.photoURL
  displayName := self.displayName
  metadata := some self.metadata
  tenantID := self.tenantID
  apiKey := some self.requestConfiguration.apiKey
  appID := some self.requestConfiguration.appID
  tokenService := self.tokenService.encode
  multiFactor := some self.mfaEnrollments

def decode (now : Date) (stored : StoredUser) : UserData where
  mfaEnrollments := stored.multiFactor.getD []
  isAnonymous := stored.isAnonymous
  uid := stored.uid
  displayName := stored.displayName
  photoURL := stored.photoURL
  email := stored.email
  phoneNumber := stored.phoneNumber
  hasEmailPasswordCredential := stored.hasEmailPasswordCredential
  providerDataRaw := stored.providerData.getD []
  isEmailVerified := stored.isEmailVerified
  metadata := stored.metadata.getD {}
  tenantID := stored.tenantID
  tokenService := SecureTokenService.decode now stored.tokenService
  requestConfiguration := { apiKey := stored.apiKey.getD "", appID := stored.appID.getD "" }

/-- Two users' data are the same, but for the request configuration and expiration dates that are out of
range at the time. -/
def SameStored (now : Date) (self other : UserData) : Prop :=
  { self with
    tokenService.requestConfiguration := other.tokenService.requestConfiguration
    tokenService.accessTokenExpirationDate :=
      self.tokenService.accessTokenExpirationDate.filter (AuthTokenLifetime.isInRange now)
    requestConfiguration := other.requestConfiguration } =
  { other with
    tokenService.accessTokenExpirationDate :=
      other.tokenService.accessTokenExpirationDate.filter (AuthTokenLifetime.isInRange now) }

theorem decode_encode (now : Date) (self : UserData) : SameStored now (decode now self.encode) self := by
  cases self with
  | mk _ _ _ _ _ _ _ _ _ _ _ _ tokenService _ =>
      cases tokenService
      simp only [SameStored, decode, encode, SecureTokenService.decode, SecureTokenService.encode,
        Option.getD_some, Option.filter_filter, Bool.and_self]

end UserData

end FirebaseSwift.Auth
