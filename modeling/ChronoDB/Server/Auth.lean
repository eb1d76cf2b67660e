import ChronoDB.Server.RemoteWrite

namespace ChronoDB.Server

open Library Text List

/-!
# Access control

A request is let through when the start of its address is on the whitelist and
it passes the check of the configured kind.  The address is what the request
says it is, credentials that are not configured are empty, and a token only has
to look like one.
-/

structure AuthConfig where
  enabled : Bool
  authType : String
  apiKeys : List Text
  username : Option Text
  password : Option Text
  jwtSecret : Option Text
  allowedIps : List Text
  enableIpWhitelist : Bool
  deriving Repr, DecidableEq

/--
A request and the address of its connection.  A header has no text when its
value is not visible ASCII, and the server may not have recorded the address.
-/
structure AuthRequest where
  headers : List (String × Option Text)
  query : Option Text
  peer : Text
  isRecorded : Bool
  deriving Repr, DecidableEq

inductive AuthOutcome where
  | passed
  | forbidden
  | unauthorized
  | challenged (realm : String)
  | unknownType
  deriving Repr, DecidableEq

namespace AuthRequest

/-- The text of the first header with a name in lower case. -/
def headerText (request : AuthRequest) (name : String) : Option Text :=
  (request.headers.find? fun header => header.1 = name).bind Prod.snd

def clientIp (request : AuthRequest) : Text :=
  ((request.headerText "x-forwarded-for").or
    (if request.isRecorded then some request.peer else none)).getD
      "unknown".toList

def authorization (request : AuthRequest) (scheme : String) : Option Text :=
  (request.headerText "authorization").bind fun auth =>
    if scheme.toList.isPrefixOf auth then some (auth.drop scheme.length)
    else none

def apiKey (request : AuthRequest) : Option Text :=
  (request.headerText "x-api-key").or
    (request.query.bind fun query =>
      ((query.splitOn '&').find? "api_key=".toList.isPrefixOf).map (·.drop 8))

end AuthRequest

variable (decode : Text → Option Bytes)

def challenge : AuthOutcome :=
  .challenged "Basic realm=\"ChronoDB\""

/-- `authenticate_basic`, with the decoder of base 64. -/
def authenticateBasic (config : AuthConfig) (request : AuthRequest) :
    AuthOutcome :=
  match request.authorization "Basic " with
  | none => challenge
  | some credentials =>
    match (decode credentials).bind decodeUtf8 with
    | none => .unauthorized
    | some decoded =>
      match cutAt (· == ':') decoded with
      | none => challenge
      | some (username, password) =>
        if username = config.username.getD [] ∧
            password.drop 1 = config.password.getD [] then .passed
        else challenge

def validateJwt (token : Text) (config : AuthConfig) : Bool :=
  config.jwtSecret.isSome && decide (10 < byteLength token) &&
    (token.splitOn '.').length == 3

def authenticateBearer (config : AuthConfig) (request : AuthRequest) :
    AuthOutcome :=
  match request.authorization "Bearer " with
  | none => .unauthorized
  | some token => if validateJwt token config then .passed else .unauthorized

def authenticateApiKey (config : AuthConfig) (request : AuthRequest) :
    AuthOutcome :=
  match request.apiKey with
  | none => .unauthorized
  | some key => if key ∈ config.apiKeys then .passed else .unauthorized

def authMiddleware (config : AuthConfig) (request : AuthRequest) :
    AuthOutcome :=
  if !config.enabled then .passed
  else if (config.enableIpWhitelist && !config.allowedIps.isEmpty) &&
      !config.allowedIps.any (·.isPrefixOf request.clientIp) then .forbidden
  else
    match config.authType with
    | "basic" => authenticateBasic decode config request
    | "bearer" => authenticateBearer config request
    | "api_key" => authenticateApiKey config request
    | _ => .unknownType

/-!
## Who is let through
-/

/-- The whitelist is not used, or an entry is the address of the connection. -/
def AuthConfig.Lists (config : AuthConfig) (request : AuthRequest) : Prop :=
  config.enableIpWhitelist = true → config.allowedIps ≠ [] →
    request.peer ∈ config.allowedIps

/-- The whitelist is not used, or an entry starts what is taken as address. -/
def AuthConfig.Matches (config : AuthConfig) (request : AuthRequest) : Prop :=
  config.enableIpWhitelist = true → config.allowedIps ≠ [] →
    ∃ entry ∈ config.allowedIps, entry <+: request.clientIp

/-- The user name and the password of a request. -/
def AuthRequest.credentials (request : AuthRequest) : Option (Text × Text) := do
  let credentials ← request.authorization "Basic "
  let decoded ← (decode credentials).bind decodeUtf8
  let cut ← cutAt (· == ':') decoded
  some (cut.1, cut.2.drop 1)

variable (verifies : Text → Text → Prop)

def CarriesKey (config : AuthConfig) (request : AuthRequest) : Prop :=
  ∃ key ∈ config.apiKeys, request.apiKey = some key

/-- A token with a valid signature under the configured secret. -/
def CarriesToken (config : AuthConfig) (request : AuthRequest) : Prop :=
  ∃ secret token,
    config.jwtSecret = some secret ∧
    request.authorization "Bearer " = some token ∧
    verifies secret token

/-- The request carries credentials that the configuration grants. -/
def Granted (config : AuthConfig) (request : AuthRequest) : Prop :=
  (∃ username password,
      config.username = some username ∧ config.password = some password ∧
        request.credentials decode = some (username, password)) ∨
    CarriesKey config request ∨ CarriesToken verifies config request

/-- The check of the configured kind lets the request pass. -/
def PassesCheck (config : AuthConfig) (request : AuthRequest) : Prop :=
  (config.authType = "basic" ∧
      request.credentials decode =
        some (config.username.getD [], config.password.getD [])) ∨
    (config.authType = "bearer" ∧
      ∃ token, request.authorization "Bearer " = some token ∧
        validateJwt token config = true) ∨
    (config.authType = "api_key" ∧ CarriesKey config request)

variable {decode verifies} {config : AuthConfig} {request : AuthRequest}

theorem authenticateBasic_eq_passed_iff :
    authenticateBasic decode config request = .passed ↔
      request.credentials decode =
        some (config.username.getD [], config.password.getD []) := by
  rw [authenticateBasic, AuthRequest.credentials]
  cases request.authorization "Basic " with
  | none => simp [challenge]
  | some credentials =>
    simp only [Option.bind_eq_bind, Option.bind_some]
    cases (decode credentials).bind decodeUtf8 with
    | none => simp
    | some decoded =>
      simp only [Option.bind_some]
      cases cutAt (· == ':') decoded with
      | none => simp [challenge]
      | some cut => simp [challenge, Prod.ext_iff]

theorem authenticateBearer_eq_passed_iff :
    authenticateBearer config request = .passed ↔
      ∃ token, request.authorization "Bearer " = some token ∧
        validateJwt token config = true := by
  rw [authenticateBearer]
  cases request.authorization "Bearer " <;> simp

theorem authenticateApiKey_eq_passed_iff :
    authenticateApiKey config request = .passed ↔
      CarriesKey config request := by
  rw [authenticateApiKey, CarriesKey]
  cases request.apiKey <;> simp [eq_comm]

theorem authMiddleware_eq_passed_iff (enabled : config.enabled = true) :
    authMiddleware decode config request = .passed ↔
      config.Matches request ∧ PassesCheck decode config request := by
  have checked :
      (match config.authType with
        | "basic" => authenticateBasic decode config request
        | "bearer" => authenticateBearer config request
        | "api_key" => authenticateApiKey config request
        | _ => AuthOutcome.unknownType) = .passed ↔
        PassesCheck decode config request := by
    rw [PassesCheck, ← authenticateBasic_eq_passed_iff,
      ← authenticateBearer_eq_passed_iff, ← authenticateApiKey_eq_passed_iff]
    split
    · simp_all
    · simp_all
    · simp_all
    · simp_all
  rw [authMiddleware, if_neg (by simp [enabled])]
  split
  · rename_i mismatches
    refine iff_of_false nofun fun passes => ?_
    obtain ⟨entry, member, isStart⟩ :=
      passes.1 (by simp_all) (by simp_all)
    have noStart : ¬ entry <+: request.clientIp := by simp_all
    exact noStart isStart
  · rename_i isMatch
    refine checked.trans (iff_and_self.mpr fun _ isOn nonempty => ?_)
    simp_all

theorem not_bearer_of_credentials {credentials : Text × Text} {token : Text}
    (isBasic : request.credentials decode = some credentials)
    (isBearer : request.authorization "Bearer " = some token) :
    False := by
  obtain ⟨auth, isAuth, startsBearer⟩ := Option.bind_eq_some_iff.mp isBearer
  obtain ⟨_, isScheme, _⟩ := Option.bind_eq_some_iff.mp isBasic
  obtain ⟨other, isOther, startsBasic⟩ := Option.bind_eq_some_iff.mp isScheme
  cases isAuth.symm.trans isOther
  split at startsBearer
  · split at startsBasic
    · rename_i first second
      rcases prefix_or_prefix_of_prefix ( isPrefixOf_iff_prefix.mp first)
          ( isPrefixOf_iff_prefix.mp second) with starts | starts
      · exact absurd starts (by decide)
      · exact absurd starts (by decide)
    · cases startsBasic
  · cases startsBearer

theorem granted_iff (passes : PassesCheck decode config request) :
    Granted decode verifies config request ↔
      CarriesKey config request ∨
        (config.authType = "basic" ∧ config.username.isSome ∧
          config.password.isSome) ∨
        (config.authType = "bearer" ∧
          CarriesToken verifies config request) := by
  rcases passes with ⟨isBasic, carries⟩ | ⟨isBearer, token, carries, _⟩ |
    ⟨_, carries⟩
  · constructor
    · rintro (⟨username, password, isName, isPassword, _⟩ | key |
        ⟨_, _, _, isToken, _⟩)
      · exact .inr (.inl ⟨isBasic, Option.isSome_of_eq_some isName,
          Option.isSome_of_eq_some isPassword⟩)
      · exact .inl key
      · exact (not_bearer_of_credentials carries isToken).elim
    · rintro (key | ⟨_, isName, isPassword⟩ | ⟨_, isToken⟩)
      · exact .inr (.inl key)
      · obtain ⟨username, isName⟩ := Option.isSome_iff_exists.mp isName
        obtain ⟨password, isPassword⟩ := Option.isSome_iff_exists.mp isPassword
        rw [isName, isPassword] at carries
        exact .inl ⟨username, password, isName, isPassword, carries⟩
      · exact .inr (.inr isToken)
  · have notBasic : ¬(config.authType = "basic" ∧ config.username.isSome ∧
        config.password.isSome) := by
      simp [isBearer]
    rw [Granted, or_iff_right notBasic, and_iff_right isBearer]
    refine or_iff_right ?_
    rintro ⟨_, _, _, _, isBasic⟩
    exact not_bearer_of_credentials isBasic carries
  · exact iff_of_true (.inr (.inl carries)) (.inl carries)

/--
Only those are let through whom the configuration admits, exactly when the
request is refused anyway, or its connection is listed and it has a key, or a
password where both parts are set, or a token that is really signed.
-/
theorem admits_only_granted_iff
    (decode : Text → Option Bytes) (verifies : Text → Text → Prop)
    (config : AuthConfig) (request : AuthRequest)
    (enabled : config.enabled = true) :
    (authMiddleware decode config request = .passed →
        config.Lists request ∧ Granted decode verifies config request) ↔
      ¬config.Matches request ∨ ¬PassesCheck decode config request ∨
        (config.Lists request ∧
          (CarriesKey config request ∨
            (config.authType = "basic" ∧ config.username.isSome ∧
              config.password.isSome) ∨
            (config.authType = "bearer" ∧
              CarriesToken verifies config request))) := by
  rw [authMiddleware_eq_passed_iff enabled]
  by_cases isMatch : config.Matches request
  · by_cases passes : PassesCheck decode config request
    · rw [or_iff_right (not_not.mpr isMatch), or_iff_right (not_not.mpr passes),
        forall_prop_of_true ⟨isMatch, passes⟩]
      exact and_congr_right fun _ => granted_iff passes
    · exact iff_of_true (fun both => absurd both.2 passes) (.inr (.inl passes))
  · exact iff_of_true (fun both => absurd both.1 isMatch) (.inl isMatch)

/-- A server that asks for the password of a user. -/
def passwordConfig : AuthConfig where
  enabled := true
  authType := "basic"
  apiKeys := []
  username := some "a".toList
  password := some "b".toList
  jwtSecret := none
  allowedIps := ["10.0.0.1".toList]
  enableIpWhitelist := true

/-- Decodes the one text that the requests below carry. -/
def decodeExample (text : Text) : Option Bytes :=
  if text = "YTpi".toList then some (stringBytes "a:b") else none

/-- A request with the password of the user from a given address. -/
def passwordRequest (peer : String) (headers : List (String × Option Text)) :
    AuthRequest where
  headers := ("authorization", some "Basic YTpi".toList) :: headers
  query := none
  peer := peer.toList
  isRecorded := true

theorem listed_client_is_granted :
    authMiddleware decodeExample passwordConfig
        (passwordRequest "10.0.0.1" []) = .passed ∧
      Granted decodeExample (fun _ _ => False) passwordConfig
        (passwordRequest "10.0.0.1" []) := by
  have passes :
      authMiddleware decodeExample passwordConfig
        (passwordRequest "10.0.0.1" []) = .passed := by
    decide +kernel
  refine ⟨passes, ((admits_only_granted_iff decodeExample (fun _ _ => False)
    passwordConfig (passwordRequest "10.0.0.1" []) rfl).mpr ?_ passes).2⟩
  exact .inr (.inr ⟨fun _ _ => mem_singleton_self _,
    .inr (.inl ⟨rfl, rfl, rfl⟩)⟩)

/-- Another client is let through when it claims to be the listed one. -/
theorem claimed_address_is_admitted :
    ¬ ∀ (decode : Text → Option Bytes) (verifies : Text → Text → Prop)
        (config : AuthConfig) (request : AuthRequest),
        config.enabled = true →
        authMiddleware decode config request = .passed →
        config.Lists request ∧ Granted decode verifies config request := by
  intro admits
  have listed :=
    (admits decodeExample (fun _ _ => True) passwordConfig
      (passwordRequest "6.6.6.6" [("x-forwarded-for", some "10.0.0.1".toList)])
      rfl (by decide +kernel)).1 rfl (by decide)
  exact absurd listed (by decide)

end ChronoDB.Server
