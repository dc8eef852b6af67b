import StockMarket.Gateway.Routes

/-! # What a request reaches

A request is followed from the gateway's route to the handler of the service, behind its
guards and pipes. The parameters are decoded, put into a URL as they are, and the URL's
path is resolved before it is sent.
-/

namespace StockMarket.Gateway
open Routing

/-- A client's request. The token is given by what it verifies to. -/
structure ClientRequest (ι β : Type) where
  method : Method
  /-- the path, cut at its slashes and still escaped -/
  path : List Segment
  verified : Option (JwtPayload ι)
  /-- the `x-user-*` headers of the client's own, which nobody reads -/
  headers : UserHeaders ι
  body : β
  query : List (String × String)
  deriving DecidableEq, Repr

structure ServiceRequest (ι β : Type) where
  service : Service
  method : Method
  /-- the URL after the service's origin -/
  url : List Char
  headers : UserHeaders ι
  authorization : Option (JwtPayload ι)
  body : Option β
  query : List (String × String)
  deriving DecidableEq, Repr

/-- A handler that is entered, with what it is given. -/
structure Invocation (ι β : Type) where
  handler : Handler
  params : List Segment
  headers : UserHeaders ι
  /-- the user it acts for -/
  user : Option ι
  body : Option β
  query : List (String × String)
  deriving DecidableEq, Repr

section Semantics
variable {ι β : Type}

def cannot (method : Method) (segments : List Segment) : Exception :=
  let path := String.ofList (render segments)
  .notFound s!"Cannot {method.text} {path}"

def decodeParams : List Segment → Except Exception (List Segment)
  | [] => .ok []
  | s :: raws =>
      match decode s with
      | none =>
          let text := String.ofList s
          .error (.badRequest s!"Failed to decode param '{text}'")
      | some param => (decodeParams raws).map (param :: ·)

def Proxy.outgoing (p : Proxy) (request : ClientRequest ι β) (params : List Segment)
    (headers : UserHeaders ι) (authorization : Option (JwtPayload ι)) : ServiceRequest ι β where
  service := p.service
  method := request.method
  url := render (fill p.target params)
  headers
  authorization
  body := if p.payload = .body then some request.body else none
  query := if p.payload = .query then request.query else []

/-- Only a public route is forwarded without a verified token. -/
def Proxy.forward (p : Proxy) (request : ClientRequest ι β) (params : List Segment) :
    Except Exception (ServiceRequest ι β) :=
  match p.caller with
  | .nobody => .ok (p.outgoing request params .none none)
  | .bearer => .ok (p.outgoing request params .none request.verified)
  | .user => (JwtAuthGuard.canActivate request.verified).map fun user =>
      p.outgoing request params user.headers none

def handle (request : ClientRequest ι β) : Except Exception (ServiceRequest ι β) :=
  match find proxyRoutes request.method request.path with
  | none => .error (cannot request.method request.path)
  | some (p, raws) => (decodeParams raws).bind fun params => p.forward request params

/-- The guards of the trading service have texts of their own. -/
def Guard.canActivate (service : Service) (request : ServiceRequest ι β) :
    Guard → Except Exception Unit
  | .unguarded => .ok ()
  | .cms roles =>
      if service = .trading then
        (TradingCmsJwtAuthGuard.canActivate request.headers).bind fun _ =>
          RolesGuard.canActivate "Missing x-user-role header" roles request.headers
      else
        (CmsJwtAuthGuard.canActivate request.headers).bind fun _ =>
          RolesGuard.canActivate "Missing x-user-role — request did not pass through gateway" roles
            request.headers
  | .jwt =>
      if request.authorization.isSome then .ok () else .error (.unauthorized "Unauthorized")

def Identity.user (request : ServiceRequest ι β) : Identity → Except Exception (Option ι)
  | .nobody => .ok none
  | .headers => (currentUser request.headers).map fun user => some user.userId
  | .idHeader => .ok request.headers.userId
  | .token => .ok (request.authorization.map JwtPayload.sub)

def ParseObjectIdPipe.transform (value : Segment) : Except Exception Segment :=
  let text := String.ofList value
  match ObjectId.parse? text with
  | none => .error (.badRequest s!"\"{text}\" is not a valid ObjectId")
  | some id => .ok id.text.toList

def HandlerName.pipe (name : HandlerName) (params : List Segment) :
    Except Exception (List Segment) :=
  if name.parsesId then params.mapM ParseObjectIdPipe.transform else .ok params

/-- The `ValidationPipe` of all services: what class-validator says of the body and the
query by the DTOs of a handler. -/
abbrev ValidationPipe (β : Type) :=
  HandlerName → Option β → List (String × String) → Except Exception Unit

/-- A handler behind its guards and pipes. -/
def Handler.enter (validate : ValidationPipe β) (h : Handler) (request : ServiceRequest ι β)
    (params : List Segment) : Except Exception (Invocation ι β) :=
  (h.guard.canActivate request.service request).bind fun _ =>
    (h.identity.user request).bind fun user =>
      (h.name.pipe params).bind fun params =>
        (validate h.name request.body request.query).map fun _ =>
          { handler := h, params, headers := request.headers, user, body := request.body
            query := request.query }

def dispatch (validate : ValidationPipe β) (request : ServiceRequest ι β) :
    Except Exception (Invocation ι β) :=
  match find (serviceRoutes request.service) request.method (urlPath request.url) with
  | none => .error (cannot request.method (urlPath request.url))
  | some (h, raws) => (decodeParams raws).bind fun params => h.enter validate request params

/-- A client's request, through the gateway. -/
def reach (validate : ValidationPipe β) (request : ClientRequest ι β) :
    Except Exception (Invocation ι β) :=
  (handle request).bind (dispatch validate)

def segmentsOf (path : String) : List Segment := (path.toList.splitOn '/').drop 1

/-- A request with the role of its token, or without a token. -/
def sampleRequest (method : Method) (path : String) (role : Option String) :
    ClientRequest ℕ String where
  method
  path := segmentsOf path
  verified := role.map fun role => ⟨7, "m@x.io", some role, none⟩
  headers := ⟨some 8, none, some "administrator"⟩
  body := ""
  query := []

end Semantics

section Entering
variable {ι β : Type} {validate : ValidationPipe β} {request : ServiceRequest ι β}
  {params : List Segment} {inv : Invocation ι β}

theorem bind_eq_ok {ε α γ : Type} {x : Except ε α} {f : α → Except ε γ} {y : γ}
    (h : x.bind f = .ok y) : ∃ a, x = .ok a ∧ f a = .ok y := by
  rcases x with e | a
  · cases h
  · exact ⟨a, rfl, h⟩

theorem map_eq_ok {ε α γ : Type} {x : Except ε α} {f : α → γ} {y : γ} (h : x.map f = .ok y) :
    ∃ a, x = .ok a ∧ f a = y := by
  rcases x with e | a
  · cases h
  · exact ⟨a, rfl, Except.ok.inj h⟩

theorem enter_eq_ok {h : Handler} (hinv : h.enter validate request params = .ok inv) :
    inv.handler = h ∧ inv.headers = request.headers ∧
      h.guard.canActivate request.service request = .ok () ∧
      h.identity.user request = .ok inv.user := by
  obtain ⟨⟨⟩, hguard, hinv⟩ := bind_eq_ok hinv
  obtain ⟨user, huser, hinv⟩ := bind_eq_ok hinv
  obtain ⟨ids, -, hinv⟩ := bind_eq_ok hinv
  obtain ⟨⟨⟩, -, rfl⟩ := map_eq_ok hinv
  exact ⟨rfl, rfl, hguard, huser⟩

theorem dispatch_eq_ok (h : dispatch validate request = .ok inv) :
    (∃ r ∈ serviceRoutes request.service, r.handler = inv.handler) ∧
      ∃ params, inv.handler.enter validate request params = .ok inv := by
  rw [dispatch] at h
  rcases hfind : find (serviceRoutes request.service) request.method (urlPath request.url) with
    _ | ⟨handler, raws⟩
  · rw [hfind] at h
    cases h
  · rw [hfind] at h
    dsimp only at h
    obtain ⟨params, -, h⟩ := bind_eq_ok h
    obtain ⟨rfl, -⟩ := enter_eq_ok h
    obtain ⟨r, hr, -, hhandler, -⟩ := of_find hfind
    exact ⟨⟨r, hr, hhandler⟩, params, h⟩

theorem user_eq_ok {identity : Identity} {id : ι} (h : identity.user request = .ok (some id)) :
    request.headers.userId = some id ∨ request.authorization.map JwtPayload.sub = some id := by
  cases identity with
  | nobody => cases h
  | headers =>
    obtain ⟨user, huser, hid⟩ := map_eq_ok h
    cases hid
    exact .inl (currentUser_eq_ok huser)
  | idHeader => exact .inl (Except.ok.inj h)
  | token => exact .inr (Except.ok.inj h)

end Entering

section Params
variable {raws params : List Segment}

theorem decodeParams_plain (h : ∀ x ∈ params, Plain x) : decodeParams params = .ok params := by
  induction params with
  | nil => rfl
  | cons s params ih =>
    obtain ⟨hs, hparams⟩ := List.forall_mem_cons.mp h
    have hdecode : decode s = some s := decode_of_not_mem fun hc =>
      (kept_of_plain (hs.chars _ hc)).2.2.2.2.2 rfl
    simp only [decodeParams, hdecode, ih hparams]
    rfl

theorem decodeParams_eq_ok (h : decodeParams raws = .ok params) :
    params.length = raws.length ∧ ((∀ x ∈ raws, x ≠ []) → ∀ x ∈ params, x ≠ []) := by
  induction raws generalizing params with
  | nil =>
    cases h
    exact ⟨rfl, fun _ => by simp⟩
  | cons s raws ih =>
    rw [decodeParams] at h
    rcases hs : decode s with _ | param
    · rw [hs] at h
      cases h
    · rw [hs] at h
      rcases hrest : decodeParams raws with e | rest
      · rw [hrest] at h
        cases h
      · rw [hrest] at h
        cases h
        obtain ⟨hlength, hne⟩ := ih hrest
        refine ⟨by rw [List.length_cons, hlength, List.length_cons], ?_⟩
        intro hraws
        obtain ⟨hraw, hraws⟩ := List.forall_mem_cons.mp hraws
        exact List.forall_mem_cons.mpr ⟨decode_ne_nil hraw hs, hne hraws⟩

end Params

section Counterparts

def AuthProxyController.counterpart : AuthProxyController → AuthController
  | register => .register
  | verifyOtp => .verifyOtp
  | setPassword => .setPassword
  | resendOtp => .resendOtp
  | login => .login
  | refresh => .refresh
  | logout => .logout
  | forgotPassword => .forgotPassword
  | resetPassword => .resetPassword

/-- `rejectWithdrawal` is forwarded with a slash too many, `stripeWebhook` without the
prefix, and the others under paths that the wallet service does not have. -/
def WalletProxyController.counterpart : WalletProxyController → Option WalletController
  | getBalance => some .getBalance
  | initiateDeposit => some .initiateDeposit
  | requestWithdrawal => some .requestWithdrawal
  | getHistory => some .getHistory
  | getPendingWithdrawals => some .getPendingWithdrawals
  | approveWithdrawal => some .approveWithdrawal
  | manualAdjust => some .manualAdjust
  | rejectWithdrawal => none
  | stripeWebhook => none
  | getNegativeBalances => none
  | getWithdrawalsSummary => none
  | getCmsMemberHistory => none

def UserProxyController.counterpart : UserProxyController → MemberController
  | getProfile => .getProfile
  | updateProfile => .updateProfile
  | getPortfolio => .getPortfolio
  | listMembers => .listMembers
  | getMember => .getMember
  | suspendMember => .suspendMember
  | unsuspendMember => .unsuspendMember
  | updateKyc => .updateKyc
  | getMemberGrowth => .getMemberGrowth

def StocksProxyController.counterpart : StocksProxyController → StockController
  | createStock => .create
  | updateStock => .update
  | delistStock => .delist
  | listStocks => .findAll
  | getStock => .findOne

def OrdersProxyController.counterpart : OrdersProxyController → OrderController
  | placeBuyOrder => .buy
  | placeSellOrder => .sell
  | getOrderHistory => .getHistory
  | getOrder => .findOne

def PortfolioProxyController.counterpart : PortfolioProxyController → PositionController
  | getPortfolio => .getPortfolio
  | getPosition => .getPosition

def AlertsProxyController.counterpart : AlertsProxyController → AlertController
  | createAlert => .create
  | getAlerts => .findAll
  | deleteAlert => .remove

/-- The price history is one of the stock controller's. -/
def AnalyticsProxyController.counterpart : AnalyticsProxyController → HandlerName
  | getVolume => .analytics .getVolume
  | getTopStocks => .analytics .getTopStocks
  | getAum => .analytics .getAum
  | getActiveMembers => .analytics .getActiveMembers
  | getSectorAllocation => .analytics .getSectorAllocation
  | getPriceHistory => .stock .getPriceHistory

def CmsAuthProxyController.counterpart : CmsAuthProxyController → CmsAuthController
  | login => .login
  | createUser => .createUser
  | listUsers => .listUsers
  | getUserById => .getUserById
  | deactivateUser => .deactivateUser
  | changePassword => .changePassword

/-- The handler a route of the gateway is made for. -/
def ProxyName.counterpart : ProxyName → Option HandlerName
  | auth name => some (.auth name.counterpart)
  | wallet name => name.counterpart.map .wallet
  | user name => some (.member name.counterpart)
  | stocks name => some (.stock name.counterpart)
  | orders name => some (.order name.counterpart)
  | portfolio name => some (.position name.counterpart)
  | alerts name => some (.alert name.counterpart)
  | analytics name => some name.counterpart
  | cmsAuth name => some (.cmsAuth name.counterpart)

/-- A route forwards to a route of its service, or to none. -/
def Proxy.Served (method : Method) (p : Proxy) : Prop :=
  (∀ name ∈ p.name.counterpart, ∃ r ∈ serviceRoutes p.service,
    r.method = method ∧ r.pattern = p.target ∧ r.handler.name = name) ∧
  (p.name.counterpart = none → ∀ r ∈ serviceRoutes p.service,
    r.method ≠ method ∨ clash p.target r.pattern)

instance (method : Method) (p : Proxy) : Decidable (p.Served method) :=
  inferInstanceAs (Decidable (_ ∧ _))

theorem tables : (∀ service ∈ [Service.auth, .user, .wallet, .trading],
    Apart (serviceRoutes service)) ∧
    ∀ r ∈ proxyRoutes, r.handler.target.Tidy ∧ arity r.handler.target = arity r.pattern ∧
      (r.handler.caller ≠ .user → arity r.pattern = 0) ∧ r.handler.Served r.method := by
  decide +kernel

theorem apart (service : Service) : Apart (serviceRoutes service) :=
  tables.1 service (by cases service <;> simp)

end Counterparts

section Plain
variable {ι β : Type} {validate : ValidationPipe β} {request : ClientRequest ι β}
  {outgoing : ServiceRequest ι β} {p : Proxy} {raws params : List Segment} {inv : Invocation ι β}

/-- What is known of a route the gateway has found, and of its parameters. -/
theorem of_route (hroute : find proxyRoutes request.method request.path = some (p, raws))
    (hparams : decodeParams raws = .ok params) :
    p.target.Tidy ∧ params.length = arity p.target ∧ (∀ x ∈ params, x ≠ []) ∧
      (p.caller ≠ .user → params = []) ∧ p.Served request.method := by
  obtain ⟨r, hr, hmethod, rfl, hmatch⟩ := of_find hroute
  obtain ⟨htidy, harity, hpublic, hserved⟩ := tables.2 r hr
  obtain ⟨hlength, hne⟩ := of_matchPath hmatch
  obtain ⟨hlength', hne'⟩ := decodeParams_eq_ok hparams
  refine ⟨htidy, by rw [hlength', hlength, harity], hne' hne, ?_, hmethod ▸ hserved⟩
  intro hcaller
  rw [← List.length_eq_zero_iff, hlength', hlength, hpublic hcaller]

theorem reach_eq (hroute : find proxyRoutes request.method request.path = some (p, raws))
    (hparams : decodeParams raws = .ok params) :
    reach validate request = (p.forward request params).bind (dispatch validate) := by
  rw [reach, handle, hroute]
  dsimp only
  rw [hparams]
  rfl

/-- A proxy changes neither the method nor the path it has for its parameters. -/
theorem forward_eq_ok (h : p.forward request params = .ok outgoing) :
    (p.caller = .nobody ∧ outgoing = p.outgoing request params .none none) ∨
      (p.caller = .bearer ∧ outgoing = p.outgoing request params .none request.verified) ∨
      (p.caller = .user ∧ ∃ user, JwtAuthGuard.canActivate request.verified = .ok user ∧
        outgoing = p.outgoing request params user.headers none) := by
  rw [Proxy.forward] at h
  rcases hcaller : p.caller with _ | _ | _ <;> rw [hcaller] at h <;> dsimp only at h
  · cases h
    exact .inl ⟨rfl, rfl⟩
  · cases h
    exact .inr (.inl ⟨rfl, rfl⟩)
  · rcases huser : JwtAuthGuard.canActivate request.verified with e | user
    · rw [huser] at h
      cases h
    · rw [huser] at h
      cases h
      exact .inr (.inr ⟨rfl, user, rfl, rfl⟩)

theorem forward_outgoing (h : p.forward request params = .ok outgoing) :
    ∃ headers authorization, outgoing = p.outgoing request params headers authorization := by
  obtain ⟨-, rfl⟩ | ⟨-, rfl⟩ | ⟨-, user, -, rfl⟩ := forward_eq_ok h
  · exact ⟨_, _, rfl⟩
  · exact ⟨_, _, rfl⟩
  · exact ⟨_, _, rfl⟩

/-- A request built from plain parameters is taken to the handler its target is the route of. -/
theorem dispatch_served {headers : UserHeaders ι} {authorization : Option (JwtPayload ι)}
    {r : Route Method Handler} (hr : r ∈ serviceRoutes p.service)
    (hmethod : r.method = request.method) (htarget : r.pattern = p.target)
    (htidy : p.target.Tidy) (harity : params.length = arity p.target)
    (hplain : ∀ x ∈ params, Plain x) (hne : ∀ x ∈ params, x ≠ []) :
    dispatch validate (p.outgoing request params headers authorization) =
      r.handler.enter validate (p.outgoing request params headers authorization) params := by
  have hfind : find (serviceRoutes p.service) request.method
      (urlPath (render (fill p.target params))) = some (r.handler, params) := by
    rw [← hmethod, ← htarget]
    rw [← htarget] at htidy harity
    exact find_render (apart p.service) hr htidy harity hplain hne
  rw [dispatch]
  dsimp only [Proxy.outgoing]
  rw [hfind]
  dsimp only
  rw [decodeParams_plain hplain]
  rfl

theorem dispatch_unserved {headers : UserHeaders ι} {authorization : Option (JwtPayload ι)}
    (hclash : ∀ r ∈ serviceRoutes p.service, r.method ≠ request.method ∨ clash p.target r.pattern)
    (htidy : p.target.Tidy) (harity : params.length = arity p.target)
    (hplain : ∀ x ∈ params, Plain x) (hne : ∀ x ∈ params, x ≠ []) :
    dispatch validate (p.outgoing request params headers authorization) =
      .error (cannot request.method (fill p.target params)) := by
  rw [dispatch]
  dsimp only [Proxy.outgoing]
  rw [find_render_none hclash htidy harity hplain hne]
  dsimp only
  rw [urlPath_render (plain_fill htidy.1 hplain)]

/-- With plain parameters a request of any route of the gateway is forwarded after the
token check and taken to the handler the route is made for, with the parameters it was
given, where the handler's own guards and pipes decide. The requests of the five routes
without one are answered by 404. -/
theorem counterpart_reached (validate : ValidationPipe β)
    (hroute : find proxyRoutes request.method request.path = some (p, raws))
    (hparams : decodeParams raws = .ok params) (hplain : ∀ x ∈ params, Plain x) :
    (∀ name ∈ p.name.counterpart, ∃ r ∈ serviceRoutes p.service, r.handler.name = name ∧
      reach validate request = (p.forward request params).bind fun outgoing =>
        r.handler.enter validate outgoing params) ∧
    (p.name.counterpart = none → reach validate request =
      (p.forward request params).bind fun _ =>
        .error (cannot request.method (fill p.target params))) := by
  obtain ⟨htidy, harity, hne, -, hserved, hunserved⟩ := of_route hroute hparams
  rw [reach_eq hroute hparams]
  have hbind {k : ServiceRequest ι β → Except Exception (Invocation ι β)}
      (h : ∀ headers authorization,
        dispatch validate (p.outgoing request params headers authorization) =
          k (p.outgoing request params headers authorization)) :
      (p.forward request params).bind (dispatch validate) =
        (p.forward request params).bind k := by
    rcases hforward : p.forward request params with e | outgoing
    · rfl
    · obtain ⟨headers, authorization, rfl⟩ := forward_outgoing hforward
      exact h headers authorization
  constructor
  · intro name hname
    obtain ⟨r, hr, hmethod, htarget, rfl⟩ := hserved name hname
    exact ⟨r, hr, rfl, hbind fun _ _ =>
      dispatch_served hr hmethod htarget htidy harity hplain hne⟩
  · intro hnone
    exact hbind fun _ _ => dispatch_unserved (hunserved hnone) htidy harity hplain hne

def getOrderRoute : Proxy :=
  ⟨.orders .getOrder, .user, .trading, apiV1 "/orders/:id", .nothing⟩

/-- Bodies and queries are let pass. -/
def passing : ValidationPipe String := fun _ _ _ => .ok ()

def orderRequest : ClientRequest ℕ String :=
  sampleRequest .get "/api/v1/orders/66c1f0aa90d3b5e7128f4a11" (some "member")

def orderId : Segment := "66c1f0aa90d3b5e7128f4a11".toList

/-- It is taken to the order controller's handler, and enters it. -/
theorem counterpart_reached_order :
    ∃ r ∈ tradingRoutes, r.handler.name = .order .findOne ∧
      reach passing orderRequest = (getOrderRoute.forward orderRequest [orderId]).bind
        (fun outgoing => r.handler.enter passing outgoing [orderId]) ∧
      reach passing orderRequest = .ok ⟨r.handler, [orderId],
        ⟨some 7, some "m@x.io", some "member"⟩, some 7, none, []⟩ := by
  have hroute : find proxyRoutes orderRequest.method orderRequest.path =
      some (getOrderRoute, [orderId]) := by decide +kernel
  have hplain : ∀ x ∈ [orderId], Plain x := by decide +kernel
  have hreach : reach passing orderRequest = .ok ⟨⟨.order .findOne, .unguarded, .headers⟩,
      [orderId], ⟨some 7, some "m@x.io", some "member"⟩, some 7, none, []⟩ := by decide +kernel
  obtain ⟨hserved, -⟩ :=
    counterpart_reached passing hroute (decodeParams_plain hplain) hplain
  obtain ⟨r, hr, hname, heq⟩ := hserved (.order .findOne) rfl
  have hhandler : r.handler = ⟨.order .findOne, .unguarded, .headers⟩ := by
    have hmember : ∀ s ∈ tradingRoutes, s.handler.name = .order .findOne →
        s.handler = ⟨.order .findOne, .unguarded, .headers⟩ := by decide +kernel
    exact hmember r hr hname
  exact ⟨r, hr, hname, heq, hhandler ▸ hreach⟩

/-- With a text that is no id its pipe answers. -/
example : reach passing (sampleRequest .get "/api/v1/orders/5f1c" (some "member")) =
    .error (.badRequest "\"5f1c\" is not a valid ObjectId") := by decide +kernel

/-- Without parameters that resolve to another path, no request enters a handler that no
route of the gateway is made for. -/
theorem exists_counterpart (hroute : find proxyRoutes request.method request.path = some (p, raws))
    (hparams : decodeParams raws = .ok params) (hplain : ∀ x ∈ params, Plain x)
    (h : reach validate request = .ok inv) : p.name.counterpart = some inv.handler.name := by
  obtain ⟨htidy, harity, hne, -, hserved, hunserved⟩ := of_route hroute hparams
  rw [reach_eq hroute hparams] at h
  obtain ⟨outgoing, hforward, h⟩ := bind_eq_ok h
  obtain ⟨headers, authorization, rfl⟩ := forward_outgoing hforward
  rcases hname : p.name.counterpart with _ | name
  · rw [dispatch_unserved (hunserved hname) htidy harity hplain hne] at h
    cases h
  · obtain ⟨r, hr, hmethod, htarget, rfl⟩ := hserved name hname
    rw [dispatch_served hr hmethod htarget htidy harity hplain hne] at h
    rw [(enter_eq_ok h).1]

end Plain

section Callers
variable {ι β : Type} {validate : ValidationPipe β} {request : ClientRequest ι β}
  {inv : Invocation ι β}

def openHandlers : List HandlerName :=
  [.auth .register, .auth .verifyOtp, .auth .setPassword, .auth .resendOtp, .auth .login,
    .auth .refresh, .auth .forgotPassword, .auth .resetPassword, .cmsAuth .login]

theorem open_or_logout : ∀ r ∈ proxyRoutes, r.handler.caller ≠ .user →
    ∀ name ∈ r.handler.name.counterpart, name ∈ openHandlers ∨ name = .auth .logout := by
  decide +kernel

theorem logout_guard (service : Service) :
    ∀ r ∈ serviceRoutes service, r.handler.name = .auth .logout → r.handler.guard = .jwt := by
  cases service <;> decide +kernel

/-- What a request that was entered has been through. -/
theorem reach_eq_ok (h : reach validate request = .ok inv) :
    ∃ p raws params outgoing, find proxyRoutes request.method request.path = some (p, raws) ∧
      decodeParams raws = .ok params ∧ p.forward request params = .ok outgoing ∧
      dispatch validate outgoing = .ok inv := by
  obtain ⟨outgoing, houtgoing, h⟩ := bind_eq_ok h
  rw [handle] at houtgoing
  rcases hroute : find proxyRoutes request.method request.path with _ | ⟨p, raws⟩
  · rw [hroute] at houtgoing
    cases houtgoing
  · rw [hroute] at houtgoing
    dsimp only at houtgoing
    obtain ⟨params, hparams, hforward⟩ := bind_eq_ok houtgoing
    exact ⟨p, raws, params, outgoing, rfl, hparams, hforward, h⟩

/-- A client without a verified token enters only the handlers that ask for none, whatever
its path. -/
theorem open_reached (hnone : request.verified = none) (h : reach validate request = .ok inv) :
    inv.handler.name ∈ openHandlers ∧ inv.user = none := by
  obtain ⟨p, raws, params, outgoing, hroute, hparams, hforward, hdispatch⟩ := reach_eq_ok h
  have hcaller : p.caller ≠ .user := by
    intro hcaller
    obtain ⟨hc, -⟩ | ⟨hc, -⟩ | ⟨-, user, huser, -⟩ := forward_eq_ok hforward
    · rw [hcaller] at hc
      cases hc
    · rw [hcaller] at hc
      cases hc
    · rw [hnone] at huser
      cases huser
  have hout : outgoing = p.outgoing request params .none none := by
    obtain ⟨-, hout⟩ | ⟨-, hout⟩ | ⟨hc, -⟩ := forward_eq_ok hforward
    · exact hout
    · rwa [hnone] at hout
    · exact absurd hc hcaller
  obtain rfl : params = [] := (of_route hroute hparams).2.2.2.1 hcaller
  have hname := exists_counterpart hroute hparams (by simp) h
  obtain ⟨⟨s, hs, hhandler⟩, params', henter⟩ := dispatch_eq_ok hdispatch
  obtain ⟨-, -, hguard, huser⟩ := enter_eq_ok henter
  subst hout
  obtain ⟨r, hr, -, rfl, -⟩ := of_find hroute
  refine ⟨(open_or_logout r hr hcaller _ hname).resolve_right ?_, ?_⟩
  · intro hlogout
    rw [← hhandler] at hlogout hguard
    rw [logout_guard _ s hs hlogout] at hguard
    cases hguard
  · rcases hinv : inv.user with _ | id
    · rfl
    · rw [hinv] at huser
      obtain huser | huser := user_eq_ok huser <;> cases huser

/-- A login is such a request. -/
theorem open_reached_login :
    ∃ inv, reach passing (sampleRequest .post "/api/v1/auth/login" none) = .ok inv ∧
      inv.handler.name ∈ openHandlers ∧ inv.user = none := by
  have hreach : reach passing (sampleRequest .post "/api/v1/auth/login" none) =
      .ok ⟨⟨.auth .login, .unguarded, .nobody⟩, [], .none, none, some "", []⟩ := by
    decide +kernel
  exact ⟨_, hreach, open_reached rfl hreach⟩

end Callers

section Internal
variable {ι β : Type}

end Internal
end StockMarket.Gateway
