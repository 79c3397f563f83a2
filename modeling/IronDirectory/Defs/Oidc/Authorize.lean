import IronDirectory.Defs.Base.Query
import IronDirectory.Defs.Oidc.Flow

namespace IronDirectory.Oidc

open Base Crypto Storage

section Html

def htmlEscape (s : Str) : Str :=
  Str.replace (Str.replace (Str.replace (Str.replace (Str.replace s '&' "&amp;") '<' "&lt;")
    '>' "&gt;") '"' "&quot;") '\x27' "&#39;"

def htmlUnescape : Str → Str
  | [] => []
  | '&' :: 'a' :: 'm' :: 'p' :: ';' :: cs => '&' :: htmlUnescape cs
  | '&' :: 'l' :: 't' :: ';' :: cs => '<' :: htmlUnescape cs
  | '&' :: 'g' :: 't' :: ';' :: cs => '>' :: htmlUnescape cs
  | '&' :: 'q' :: 'u' :: 'o' :: 't' :: ';' :: cs => '"' :: htmlUnescape cs
  | '&' :: '#' :: '3' :: '9' :: ';' :: cs => '\x27' :: htmlUnescape cs
  | c :: cs => c :: htmlUnescape cs

theorem htmlEscape_cons (c : Char) (s : Str) : htmlEscape (c :: s) = htmlEscape [c] ++ htmlEscape s := by
  simp only [htmlEscape, Str.replace, List.flatMap_cons, List.flatMap_nil, List.append_nil,
    List.flatMap_append]

theorem htmlEscape_singleton {c : Char} (hc : c ∉ ['&', '<', '>', '"', '\x27']) :
    htmlEscape [c] = [c] := by
  simp only [List.mem_cons, List.not_mem_nil, or_false, not_or] at hc
  simp [htmlEscape, Str.replace, hc]

theorem htmlUnescape_cons {c : Char} (hc : c ≠ '&') (cs : Str) :
    htmlUnescape (c :: cs) = c :: htmlUnescape cs := by
  rw [htmlUnescape]
  all_goals
    intros
    exact hc ‹_›

theorem htmlUnescape_htmlEscape (s : Str) : htmlUnescape (htmlEscape s) = s := by
  induction s with
  | nil => rfl
  | cons c s ih =>
    rw [htmlEscape_cons]
    by_cases hc : c ∈ ['&', '<', '>', '"', '\x27']
    · simp only [List.mem_cons, List.not_mem_nil, or_false] at hc
      obtain rfl | rfl | rfl | rfl | rfl := hc <;> exact congrArg _ ih
    · rw [htmlEscape_singleton hc, List.singleton_append, htmlUnescape_cons, ih]
      rintro rfl
      exact hc List.mem_cons_self

end Html

section Page

structure AuthorizeParams where
  responseType : Str
  clientId : Str
  redirectUri : Str
  scope : Str
  state : Option Str
  nonce : Option Str

structure LoginPage where
  error : Option Str
  clientId : Str
  redirectUri : Str
  scope : Str
  state : Str
  nonce : Str

def loginPage (params : AuthorizeParams) (error : Option Str) : LoginPage where
  error := error.map htmlEscape
  clientId := htmlEscape params.clientId
  redirectUri := htmlEscape params.redirectUri
  scope := htmlEscape params.scope
  state := htmlEscape (params.state.getD [])
  nonce := htmlEscape (params.nonce.getD [])

inductive ShowResponse
  | badRequest (text : Str)
  | redirect (url : Str)
  | page (page : LoginPage)

def showLogin (app : AppState) (params : AuthorizeParams) : ShowResponse :=
  if (validateClient app params.clientId params.redirectUri).isNone then
    .badRequest "unknown client_id or redirect_uri does not match registration"
  else if params.responseType ≠ "code" then
    .redirect (params.redirectUri ++ "?error=unsupported_response_type" ++
      match params.state with
      | some state => "&state=" ++ urlencodingEncode state
      | none => [])
  else .page (loginPage params none)

def LoginPage.fill (page : LoginPage) (username password : Str) : LoginForm where
  username := username
  password := password
  clientId := htmlUnescape page.clientId
  redirectUri := htmlUnescape page.redirectUri
  scope := htmlUnescape page.scope
  state := some (htmlUnescape page.state)
  nonce := some (htmlUnescape page.nonce)

def LoginForm.params (form : LoginForm) : AuthorizeParams where
  responseType := "code"
  clientId := form.clientId
  redirectUri := form.redirectUri
  scope := form.scope
  state := form.state
  nonce := form.nonce

/-- The pages an authorization request leads to: the first one, and the one
after each login that fails. -/
inductive Reached (app : AppState) (params : AuthorizeParams) : LoginPage → Prop
  | shown {page : LoginPage} : showLogin app params = .page page → Reached app params page
  | again {page : LoginPage} {store : Store} {codes codes' : CodeStore}
      {draw : Except CryptoError Bytes} {now : Nat} {username password : Str} {error : Option Str} :
    Reached app params page →
    submitLogin app store codes draw now (page.fill username password) =
      some (.loginPage error, codes') →
    Reached app params (loginPage (page.fill username password).params error)

structure LoginPage.Carries (page : LoginPage) (params : AuthorizeParams) : Prop where
  clientId : page.clientId = htmlEscape params.clientId
  redirectUri : page.redirectUri = htmlEscape params.redirectUri
  scope : page.scope = htmlEscape params.scope
  state : page.state = htmlEscape (params.state.getD [])
  nonce : page.nonce = htmlEscape (params.nonce.getD [])

variable {app : AppState} {params : AuthorizeParams} {page : LoginPage}

theorem carries_loginPage (error : Option Str) : (loginPage params error).Carries params :=
  ⟨rfl, rfl, rfl, rfl, rfl⟩

theorem carries_of_showLogin (h : showLogin app params = .page page) : page.Carries params := by
  rw [showLogin] at h
  split at h
  · cases h
  · split at h
    · cases h
    · cases h
      exact carries_loginPage none

theorem LoginPage.Carries.fill (h : page.Carries params) (username password : Str) :
    page.fill username password =
      ⟨username, password, params.clientId, params.redirectUri, params.scope,
        some (params.state.getD []), some (params.nonce.getD [])⟩ := by
  simp only [LoginPage.fill, h.clientId, h.redirectUri, h.scope, h.state, h.nonce,
    htmlUnescape_htmlEscape]

theorem LoginPage.Carries.again (h : page.Carries params) (username password : Str)
    (error : Option Str) :
    (loginPage (page.fill username password).params error).Carries params := by
  rw [h.fill]
  exact ⟨rfl, rfl, rfl, rfl, rfl⟩

theorem Reached.carries (h : Reached app params page) : page.Carries params := by
  induction h with
  | shown h => exact carries_of_showLogin h
  | again _ _ ih => exact ih.again _ _ _

end Page

section Redirect

def urlencodingByte (b : UInt8) : Str :=
  if isUnreserved b then [Char.ofNat b.toNat]
  else ['%', upperHex (b.toNat / 16), upperHex (b.toNat % 16)]

theorem urlencodingEncode_eq (s : Str) : urlencodingEncode s = s.toUtf8.flatMap urlencodingByte := rfl

theorem urlencodingByte_cases (b : UInt8) :
    (∃ c, urlencodingByte b = [c] ∧ c ∉ ['%', '#', '&', '=', '?'] ∧
        String.utf8EncodeChar c = [b]) ∨
      ∃ x y, urlencodingByte b = ['%', x, y] ∧ Query.octet? [x, y] = some b := by
  have hall : ∀ n < 256,
      (isUnreserved (UInt8.ofNat n) = true → Char.ofNat n ∉ ['%', '#', '&', '=', '?'] ∧
        String.utf8EncodeChar (Char.ofNat n) = [UInt8.ofNat n]) ∧
      Query.octet? [upperHex (n / 16), upperHex (n % 16)] = some (UInt8.ofNat n) := by
    decide +kernel
  obtain ⟨hplain, hhex⟩ := hall b.toNat b.toNat_lt
  rw [UInt8.ofNat_toNat] at hplain hhex
  rw [urlencodingByte]
  split
  · next h => exact .inl ⟨_, rfl, hplain h⟩
  · exact .inr ⟨_, _, rfl, hhex⟩

theorem not_mem_urlencodingEncode {d : Char} (hd : d ∈ ['#', '&', '=', '?']) (s : Str) :
    d ∉ urlencodingEncode s := by
  intro hm
  obtain ⟨b, -, hb⟩ := List.mem_flatMap.mp hm
  change d ∈ urlencodingByte b at hb
  obtain ⟨c, hc, hplain, -⟩ | ⟨x, y, hxy, hoctet⟩ := urlencodingByte_cases b
  · rw [hc, List.mem_singleton] at hb
    exact hplain (hb ▸ List.mem_cons_of_mem _ hd)
  · have hdigit : Str.hexDigit? d = none ∧ d ≠ '%' := by
      simp only [List.mem_cons, List.not_mem_nil, or_false] at hd
      obtain rfl | rfl | rfl | rfl := hd <;> decide
    rw [hxy, List.mem_cons] at hb
    exact Query.not_mem_of_octet hdigit.1 hoctet (hb.resolve_left hdigit.2)

theorem percentDecode_urlencodingEncode (s : Str) :
    Query.percentDecode (urlencodingEncode s) = s.toUtf8 := by
  rw [urlencodingEncode_eq]
  induction s.toUtf8 with
  | nil => exact Query.percentDecode_nil
  | cons b bs ih =>
    rw [List.flatMap_cons]
    obtain ⟨c, hb, hc, hutf⟩ | ⟨x, y, hb, hoctet⟩ := urlencodingByte_cases b
    · have hpercent : c ≠ '%' := fun h => hc (h ▸ List.mem_cons_self)
      rw [hb, List.singleton_append, Query.percentDecode_cons hpercent, hutf, ih,
        List.singleton_append]
    · have hrest : Query.octet? ([x, y] ++ bs.flatMap urlencodingByte) = some b := hoctet
      rw [hb, List.cons_append, Query.percentDecode_octet hrest]
      exact congrArg _ ih

def piece (name value : Str) : Str := name ++ '=' :: urlencodingEncode value

theorem param_piece {name : Str} (hname : '=' ∉ name) (value : Str) :
    Query.param (piece name value) = (Query.percentDecode name, value.toUtf8) := by
  rw [piece, Query.param_append hname, percentDecode_urlencodingEncode]

theorem not_mem_piece {d : Char} (hd : d ∈ ['#', '&']) {name : Str} (hname : d ∉ name)
    (value : Str) : d ∉ piece name value := by
  have hne : d ≠ '=' := by
    rintro rfl
    exact absurd hd (by decide)
  rw [piece, List.mem_append, List.mem_cons, not_or, not_or]
  exact ⟨hname, hne, not_mem_urlencodingEncode (List.mem_append_left ['=', '?'] hd) value⟩

theorem piece_ne_nil (name value : Str) : piece name value ≠ [] := by
  simp [piece]

theorem redirectTo_some (uri code state : Str) :
    redirectTo uri code (some state) = uri ++ '?' :: (piece "code" code ++ '&' :: piece "state" state) := by
  have hcode : ("?code=" : Str) = '?' :: ("code" ++ ['=']) := rfl
  have hstate : ("&state=" : Str) = '&' :: ("state" ++ ['=']) := rfl
  simp only [redirectTo, piece, hcode, hstate, List.append_assoc, List.cons_append,
    List.nil_append]

def codeParam (code : Str) : Bytes × Bytes := (Str.toUtf8 "code", code.toUtf8)

def stateParam (state : Str) : Bytes × Bytes := (Str.toUtf8 "state", state.toUtf8)

/-- The parameters the client may expect of a login: those it registered, the
code, and its state if it sent one. -/
def expected (params : AuthorizeParams) (code : Str) : List (Bytes × Bytes) :=
  Query.params params.redirectUri ++ codeParam code :: (params.state.map stateParam).toList

theorem param_code (code : Str) : Query.param (piece "code" code) = codeParam code := by
  rw [param_piece (by decide), Query.percentDecode_of_not_mem (by decide)]
  rfl

theorem param_state (state : Str) : Query.param (piece "state" state) = stateParam state := by
  rw [param_piece (by decide), Query.percentDecode_of_not_mem (by decide)]
  rfl

theorem params_redirectTo {uri : Str} (hfragment : '#' ∉ uri) (hmark : '?' ∉ uri)
    (code state : Str) :
    Query.params (redirectTo uri code (some state)) = [codeParam code, stateParam state] := by
  rw [redirectTo_some, Query.params_pair hfragment hmark
    ⟨not_mem_piece (by decide) (by decide) code, not_mem_piece (by decide) (by decide) code,
      piece_ne_nil _ _⟩
    ⟨not_mem_piece (by decide) (by decide) state, not_mem_piece (by decide) (by decide) state,
      piece_ne_nil _ _⟩, param_code, param_state]

theorem countP_code_redirectTo_le {uri : Str} (hfragment : '#' ∉ uri) (hmark : '?' ∈ uri)
    (code state : Str) :
    (Query.params (redirectTo uri code (some state))).countP (·.1 == Str.toUtf8 "code") ≤
      (Query.params uri).countP (·.1 == Str.toUtf8 "code") := by
  have hpiece : ∀ {d : Char}, d ∈ ['#', '&'] → d ∉ ('?' :: piece "code" code) := by
    intro d hd
    have hname : d ∉ Str.ofString "code" ∧ d ≠ '?' := by
      simp only [List.mem_cons, List.not_mem_nil, or_false] at hd
      obtain rfl | rfl := hd <;> decide
    rw [List.mem_cons, not_or]
    exact ⟨hname.2, not_mem_piece hd hname.1 code⟩
  obtain ⟨ps, p, huri, hurl⟩ := Query.exists_params_append hfragment hmark
    (y := piece "state" state)
    ⟨hpiece (by decide), hpiece (by decide)⟩
    ⟨not_mem_piece (by decide) (by decide) state, not_mem_piece (by decide) (by decide) state⟩
  have hname : '=' ∉ Str.ofString "code" := by decide
  have hlast := Query.countP_name_append_le hname p (urlencodingEncode code)
  rw [Query.percentDecode_of_not_mem (by decide)] at hlast
  have hstate : (Query.paramsOf [piece "state" state]).countP (·.1 == Str.toUtf8 "code") = 0 := by
    rw [Query.paramsOf_cons (piece_ne_nil _ _), param_state, List.countP_cons_of_neg]
    · rfl
    · simp only [stateParam, beq_iff_eq]
      decide
  rw [redirectTo_some, ← List.cons_append, huri, hurl, List.countP_append, List.countP_append,
    List.countP_append, hstate]
  exact Nat.add_le_add_left hlast _

theorem perm_expected_iff {params : AuthorizeParams} (hfragment : '#' ∉ params.redirectUri)
    (code : Str) :
    (Query.params (redirectTo params.redirectUri code (some (params.state.getD [])))).Perm
        (expected params code) ↔ params.state.isSome = true ∧ '?' ∉ params.redirectUri := by
  by_cases hmark : '?' ∈ params.redirectUri
  · refine iff_of_false ?_ fun h => h.2 hmark
    intro hperm
    have hle := countP_code_redirectTo_le hfragment hmark code (params.state.getD [])
    rw [hperm.countP_eq, expected, List.countP_append,
      List.countP_cons_of_pos (by simp [codeParam])] at hle
    omega
  · rw [params_redirectTo hfragment hmark, expected, Query.params_of_not_mem hmark,
      List.nil_append, List.perm_cons]
    cases hstate : params.state with
    | none => simp
    | some state => simp [hmark]

theorem redirect_of_submitLogin {app : AppState} {store : Store} {codes codes' : CodeStore}
    {raw : Bytes} {now : Nat} {form : LoginForm} {url : Str}
    (h : submitLogin app store codes (.ok raw) now form = some (.redirect url, codes')) :
    url = redirectTo form.redirectUri (Base64.encodeUrl raw) form.state := by
  rw [submitLogin] at h
  split at h
  · cases h
  · next response hcheck =>
    cases h
    exact absurd rfl (checkLogin_errors app store form _ hcheck url)
  · cases h
    rfl

/-- The URL of a login has the parameters the client expects exactly if it sent
a state and its URI has no query. -/
theorem redirect_parameters_iff {app : AppState} {params : AuthorizeParams} {page : LoginPage}
    (hpage : Reached app params page) (hfragment : '#' ∉ params.redirectUri) {store : Store}
    {codes codes' : CodeStore} {raw : Bytes} {now : Nat} {username password url : Str}
    (hlogin : submitLogin app store codes (.ok raw) now (page.fill username password) =
      some (.redirect url, codes')) :
    (Query.params url).Perm (expected params (Base64.encodeUrl raw)) ↔
      params.state.isSome = true ∧ '?' ∉ params.redirectUri := by
  rw [redirect_of_submitLogin hlogin, hpage.carries.fill]
  exact perm_expected_iff hfragment _

def webParams (redirectUri : Str) (state : Option Str) : AuthorizeParams :=
  ⟨"code", "web", redirectUri, "openid", state, none⟩

theorem submitLogin_of_login {app : AppState} (l : Login app) (codes : CodeStore) (raw : Bytes)
    (now : Nat) : submitLogin app l.store codes (.ok raw) now l.form =
      some (.redirect (redirectTo l.form.redirectUri (Base64.encodeUrl raw) l.form.state),
        (codes.issue raw l.new now app.codeTtl).2) := by
  rw [submitLogin, l.checked]
  rfl

def webLogin (state : Option Str) : Login corpApp where
  store := corpUsers
  form := (loginPage (webParams "https://web.corp/cb" state) none).fill "alice" "correct horse"
  new := ⟨"web", "https://web.corp/cb", "cn=Alice,dc=corp", some [], "openid"⟩
  checked := by rfl

theorem redirect_parameters_alice : ∃ url codes,
    submitLogin corpApp corpUsers .empty (.ok (drawn 0)) 0
      ((loginPage (webParams "https://web.corp/cb" (some "a&b")) none).fill "alice"
        "correct horse") = some (.redirect url, codes) ∧
    url = "https://web.corp/cb?code=" ++ aliceCode ++ "&state=a%26b" ∧
    (Query.params url).Perm
      (expected (webParams "https://web.corp/cb" (some "a&b")) aliceCode) := by
  have hpage : Reached corpApp (webParams "https://web.corp/cb" (some "a&b"))
      (loginPage (webParams "https://web.corp/cb" (some "a&b")) none) := .shown rfl
  have hlogin := submitLogin_of_login (webLogin (some "a&b")) .empty (drawn 0) 0
  have hparams := (redirect_parameters_iff hpage (by decide) hlogin).mpr ⟨rfl, by decide⟩
  rw [encodeUrl_drawn.1] at hlogin hparams
  exact ⟨_, _, hlogin, by decide +kernel, hparams⟩

def tenantApp : AppState :=
  { corpApp with clients :=
      ⟨OrderedMap.empty.insert "web" ⟨"web", "s3cret", "https://web.corp/cb?tenant=1"⟩⟩ }

def tenantLogin : Login tenantApp where
  store := corpUsers
  form := (loginPage (webParams "https://web.corp/cb?tenant=1" (some "xyz")) none).fill "alice"
    "correct horse"
  new := ⟨"web", "https://web.corp/cb?tenant=1", "cn=Alice,dc=corp", some [], "openid"⟩
  checked := by rfl

/-- The code ends up in the value of the parameter before it; a state that was
never sent comes back empty. -/
theorem redirect_parameters_lost :
    (∃ page url codes, Reached tenantApp (webParams "https://web.corp/cb?tenant=1" (some "xyz")) page ∧
      submitLogin tenantApp corpUsers .empty (.ok (drawn 0)) 0 (page.fill "alice" "correct horse") =
        some (.redirect url, codes) ∧
      url = "https://web.corp/cb?tenant=1?code=" ++ aliceCode ++ "&state=xyz" ∧
      ¬ (Query.params url).Perm
        (expected (webParams "https://web.corp/cb?tenant=1" (some "xyz")) aliceCode)) ∧
    ∃ page url codes, Reached corpApp (webParams "https://web.corp/cb" none) page ∧
      submitLogin corpApp corpUsers .empty (.ok (drawn 0)) 0 (page.fill "alice" "correct horse") =
        some (.redirect url, codes) ∧
      url = "https://web.corp/cb?code=" ++ aliceCode ++ "&state=" ∧
      ¬ (Query.params url).Perm (expected (webParams "https://web.corp/cb" none) aliceCode) := by
  constructor
  · have hlogin := submitLogin_of_login tenantLogin .empty (drawn 0) 0
    rw [encodeUrl_drawn.1] at hlogin
    have hfragment : '#' ∉ (webParams "https://web.corp/cb?tenant=1" (some "xyz")).redirectUri := by
      decide
    exact ⟨_, _, _, .shown rfl, hlogin, by decide +kernel,
      fun h => absurd ((perm_expected_iff hfragment aliceCode).mp h).2 (by decide)⟩
  · have hlogin := submitLogin_of_login (webLogin none) .empty (drawn 0) 0
    rw [encodeUrl_drawn.1] at hlogin
    have hfragment : '#' ∉ (webParams "https://web.corp/cb" none).redirectUri := by decide
    exact ⟨_, _, _, .shown rfl, hlogin, by decide +kernel,
      fun h => absurd ((perm_expected_iff hfragment aliceCode).mp h).1 (by decide)⟩

end Redirect

end IronDirectory.Oidc
