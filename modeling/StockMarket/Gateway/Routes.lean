import StockMarket.Gateway.Guards
import StockMarket.Routing

/-! # The gateway's routes and what they forward to

Every request of a client goes through the gateway. It finds the proxy controller's
route, verifies the token where the route is not public, and forwards the request to a
service under a path built from its own parameters. The service finds a route of its own.
-/

namespace StockMarket.Gateway
open Routing

inductive Method where
  | get | post | put | patch | delete
  deriving DecidableEq, Repr

def Method.text : Method → String
  | .get => "GET"
  | .post => "POST"
  | .put => "PUT"
  | .patch => "PATCH"
  | .delete => "DELETE"

inductive Service where
  | auth | user | wallet | trading
  deriving DecidableEq, Repr

/-- What is forwarded beside the path. -/
inductive Payload where
  | nothing | body | query
  deriving DecidableEq, Repr

/-- What a proxy sends about the caller. -/
inductive Caller where
  /-- a public route -/
  | nobody
  /-- a public route that passes the authorization header on -/
  | bearer
  /-- `x-user-id`, `x-user-email` and `x-user-role` of the verified token -/
  | user
  deriving DecidableEq, Repr

inductive AuthProxyController where
  | register | verifyOtp | setPassword | resendOtp | login | refresh | logout | forgotPassword
  | resetPassword
  deriving DecidableEq, Repr

inductive WalletProxyController where
  | getBalance | initiateDeposit | requestWithdrawal | getHistory | getPendingWithdrawals
  | approveWithdrawal | rejectWithdrawal | stripeWebhook | manualAdjust | getNegativeBalances
  | getWithdrawalsSummary | getCmsMemberHistory
  deriving DecidableEq, Repr

inductive UserProxyController where
  | getProfile | updateProfile | getPortfolio | listMembers | getMember | suspendMember
  | unsuspendMember | updateKyc | getMemberGrowth
  deriving DecidableEq, Repr

inductive StocksProxyController where
  | createStock | updateStock | delistStock | listStocks | getStock
  deriving DecidableEq, Repr

inductive OrdersProxyController where
  | placeBuyOrder | placeSellOrder | getOrderHistory | getOrder
  deriving DecidableEq, Repr

inductive PortfolioProxyController where
  | getPortfolio | getPosition
  deriving DecidableEq, Repr

inductive AlertsProxyController where
  | createAlert | getAlerts | deleteAlert
  deriving DecidableEq, Repr

inductive AnalyticsProxyController where
  | getVolume | getTopStocks | getAum | getActiveMembers | getSectorAllocation | getPriceHistory
  deriving DecidableEq, Repr

inductive CmsAuthProxyController where
  | login | createUser | listUsers | getUserById | deactivateUser | changePassword
  deriving DecidableEq, Repr

inductive ProxyName where
  | auth (name : AuthProxyController)
  | wallet (name : WalletProxyController)
  | user (name : UserProxyController)
  | stocks (name : StocksProxyController)
  | orders (name : OrdersProxyController)
  | portfolio (name : PortfolioProxyController)
  | alerts (name : AlertsProxyController)
  | analytics (name : AnalyticsProxyController)
  | cmsAuth (name : CmsAuthProxyController)
  deriving DecidableEq, Repr

/-- A handler of a proxy controller: its name, and the request it forwards. -/
structure Proxy where
  name : ProxyName
  caller : Caller
  service : Service
  target : Pattern
  payload : Payload
  deriving DecidableEq, Repr

/-- `setGlobalPrefix('api/v1')`, in the gateway and in all services. -/
def apiV1 (path : String) : Pattern := Pattern.of "/api/v1" ++ Pattern.of path

/-- A route under the prefix, which forwards to `target`. -/
def proxy (method : Method) (path : String) (name : ProxyName) (caller : Caller) (service : Service)
    (target : Pattern) (payload : Payload) : Route Method Proxy :=
  ⟨method, apiV1 path, name, caller, service, target, payload⟩

/-- `@Controller('auth')` -/
def AuthProxyController.routes : List (Route Method Proxy) :=
  [proxy .post "/auth/register" (.auth .register) .nobody .auth (apiV1 "/auth/register") .body,
    proxy .post "/auth/verify-otp" (.auth .verifyOtp) .nobody .auth (apiV1 "/auth/verify-otp")
      .body,
    proxy .post "/auth/set-password" (.auth .setPassword) .nobody .auth (apiV1 "/auth/set-password")
      .body,
    proxy .post "/auth/resend-otp" (.auth .resendOtp) .nobody .auth (apiV1 "/auth/resend-otp")
      .body,
    proxy .post "/auth/login" (.auth .login) .nobody .auth (apiV1 "/auth/login") .body,
    proxy .post "/auth/refresh" (.auth .refresh) .nobody .auth (apiV1 "/auth/refresh") .body,
    proxy .post "/auth/logout" (.auth .logout) .bearer .auth (apiV1 "/auth/logout") .body,
    proxy .post "/auth/forgot-password" (.auth .forgotPassword) .nobody .auth
      (apiV1 "/auth/forgot-password") .body,
    proxy .post "/auth/reset-password" (.auth .resetPassword) .nobody .auth
      (apiV1 "/auth/reset-password") .body]

/-- `@Controller('wallet')` -/
def WalletProxyController.routes : List (Route Method Proxy) :=
  [proxy .get "/wallet/balance" (.wallet .getBalance) .user .wallet (apiV1 "/wallet/balance")
      .nothing,
    proxy .post "/wallet/deposit/initiate" (.wallet .initiateDeposit) .user .wallet
      (apiV1 "/wallet/deposit/initiate") .body,
    proxy .post "/wallet/withdraw" (.wallet .requestWithdrawal) .user .wallet
      (apiV1 "/wallet/withdraw") .body,
    proxy .get "/wallet/history" (.wallet .getHistory) .user .wallet (apiV1 "/wallet/history")
      .query,
    proxy .get "/wallet/cms/withdrawals" (.wallet .getPendingWithdrawals) .user .wallet
      (apiV1 "/wallet/cms/withdrawals") .query,
    proxy .patch "/wallet/cms/withdrawals/:id/approve" (.wallet .approveWithdrawal) .user .wallet
      (apiV1 "/wallet/cms/withdrawals/:id/approve") .nothing,
    proxy .patch "/wallet/cms/withdrawals/:id/reject" (.wallet .rejectWithdrawal) .user .wallet
      (apiV1 "//wallet/cms/withdrawals/:id/reject") .body,
    -- `forwardWebhook` has a path of its own
    proxy .post "/wallet/deposit/webhook" (.wallet .stripeWebhook) .nobody .wallet
      (Pattern.of "/wallet/deposit/webhook") .body,
    proxy .post "/wallet/cms/adjust/:memberId" (.wallet .manualAdjust) .user .wallet
      (apiV1 "/wallet/cms/adjust/:memberId") .body,
    proxy .get "/wallet/cms/alerts/negative-balances" (.wallet .getNegativeBalances) .user .wallet
      (apiV1 "/wallet/cms/alerts/negative-balances") .nothing,
    proxy .get "/wallet/cms/withdrawals/summary" (.wallet .getWithdrawalsSummary) .user .wallet
      (apiV1 "/wallet/cms/withdrawals/summary") .nothing,
    proxy .get "/wallet/cms/transactions/:memberId/history" (.wallet .getCmsMemberHistory) .user
      .wallet (apiV1 "/wallet/cms/transactions/:memberId/history") .query]

/-- `@Controller()` of `UserProxyController` -/
def UserProxyController.routes : List (Route Method Proxy) :=
  [proxy .get "/members/me" (.user .getProfile) .user .user (apiV1 "/members/me") .nothing,
    proxy .put "/members/me" (.user .updateProfile) .user .user (apiV1 "/members/me") .body,
    proxy .get "/members/me/portfolio" (.user .getPortfolio) .user .user
      (apiV1 "/members/me/portfolio") .nothing,
    proxy .get "/cms/members" (.user .listMembers) .user .user (apiV1 "/cms/members") .query,
    proxy .get "/cms/members/:id" (.user .getMember) .user .user (apiV1 "/cms/members/:id")
      .nothing,
    proxy .patch "/cms/members/:id/suspend" (.user .suspendMember) .user .user
      (apiV1 "/cms/members/:id/suspend") .body,
    proxy .patch "/cms/members/:id/unsuspend" (.user .unsuspendMember) .user .user
      (apiV1 "/cms/members/:id/unsuspend") .nothing,
    proxy .patch "/cms/members/:id/kyc" (.user .updateKyc) .user .user
      (apiV1 "/cms/members/:id/kyc") .body,
    proxy .get "/cms/analytics/member-growth" (.user .getMemberGrowth) .user .user
      (apiV1 "/cms/analytics/member-growth") .nothing]

/-- A route of one of the trading proxies, whose service adds the prefix. -/
def tradingProxy (method : Method) (path : String) (name : ProxyName) (target : String)
    (payload : Payload) : Route Method Proxy :=
  proxy method path name .user .trading (apiV1 target) payload

/-- `@Controller('stocks')`, `('orders')`, `('portfolio')`, `('alerts')` and `('analytics')` -/
def TradingProxyControllers.routes : List (Route Method Proxy) :=
  [tradingProxy .post "/stocks" (.stocks .createStock) "/stocks" .body,
    tradingProxy .patch "/stocks/:id" (.stocks .updateStock) "/stocks/:id" .body,
    tradingProxy .patch "/stocks/:id/delist" (.stocks .delistStock) "/stocks/:id/delist" .nothing,
    tradingProxy .get "/stocks" (.stocks .listStocks) "/stocks" .query,
    tradingProxy .get "/stocks/:id" (.stocks .getStock) "/stocks/:id" .nothing,
    tradingProxy .post "/orders/buy" (.orders .placeBuyOrder) "/orders/buy" .body,
    tradingProxy .post "/orders/sell" (.orders .placeSellOrder) "/orders/sell" .body,
    tradingProxy .get "/orders" (.orders .getOrderHistory) "/orders" .query,
    tradingProxy .get "/orders/:id" (.orders .getOrder) "/orders/:id" .nothing,
    tradingProxy .get "/portfolio" (.portfolio .getPortfolio) "/portfolio" .nothing,
    tradingProxy .get "/portfolio/:stockId" (.portfolio .getPosition) "/portfolio/:stockId"
      .nothing,
    tradingProxy .post "/alerts" (.alerts .createAlert) "/alerts" .body,
    tradingProxy .get "/alerts" (.alerts .getAlerts) "/alerts" .nothing,
    tradingProxy .delete "/alerts/:id" (.alerts .deleteAlert) "/alerts/:id" .nothing,
    tradingProxy .get "/analytics/volume" (.analytics .getVolume) "/analytics/volume" .query,
    tradingProxy .get "/analytics/stocks/top" (.analytics .getTopStocks) "/analytics/stocks/top"
      .query,
    tradingProxy .get "/analytics/aum" (.analytics .getAum) "/analytics/aum" .nothing,
    tradingProxy .get "/analytics/members/active" (.analytics .getActiveMembers)
      "/analytics/members/active" .query,
    tradingProxy .get "/analytics/sectors" (.analytics .getSectorAllocation) "/analytics/sectors"
      .nothing,
    tradingProxy .get "/analytics/:id/price-history" (.analytics .getPriceHistory)
      "/stocks/:id/price-history" .query]

/-- A route of the CMS accounts, whose proxy service adds the prefix. -/
def cmsAuthProxy (method : Method) (path : String) (name : ProxyName) (caller : Caller)
    (payload : Payload) : Route Method Proxy :=
  proxy method path name caller .auth (apiV1 path) payload

/-- `@Controller('cms/auth')` -/
def CmsAuthProxyController.routes : List (Route Method Proxy) :=
  [cmsAuthProxy .post "/cms/auth/login" (.cmsAuth .login) .nobody .body,
    cmsAuthProxy .post "/cms/auth/users" (.cmsAuth .createUser) .user .body,
    cmsAuthProxy .get "/cms/auth/users" (.cmsAuth .listUsers) .user .nothing,
    cmsAuthProxy .get "/cms/auth/users/:id" (.cmsAuth .getUserById) .user .nothing,
    cmsAuthProxy .delete "/cms/auth/users/:id" (.cmsAuth .deactivateUser) .user .nothing,
    cmsAuthProxy .post "/cms/auth/change-password" (.cmsAuth .changePassword) .user .body]

def proxyRoutes : List (Route Method Proxy) :=
  AuthProxyController.routes ++ WalletProxyController.routes ++ UserProxyController.routes ++
    TradingProxyControllers.routes ++ CmsAuthProxyController.routes

/-- What stands before a handler of a service. -/
inductive Guard where
  | unguarded
  /-- `CmsJwtAuthGuard`, and `RolesGuard` with `@Roles(…)` -/
  | cms (roles : List String)
  /-- the auth service's own verification of the bearer token -/
  | jwt
  deriving DecidableEq, Repr

/-- Where a handler has the user from that it acts for. -/
inductive Identity where
  | nobody
  /-- `@CurrentUser()` of the headers -/
  | headers
  /-- `req.headers['x-user-id'] ?? ''` -/
  | idHeader
  /-- `@CurrentUser('sub')` of the token -/
  | token
  deriving DecidableEq, Repr

inductive AuthController where
  | register | verifyOtp | setPassword | resendOtp | login | refresh | logout | forgotPassword
  | resetPassword
  deriving DecidableEq, Repr

inductive CmsAuthController where
  | login | createUser | listUsers | getUserById | deactivateUser | changePassword
  deriving DecidableEq, Repr

inductive MemberController where
  | getProfile | updateProfile | getPortfolio | listMembers | getMember | suspendMember
  | unsuspendMember | updateKyc | getMemberGrowth
  deriving DecidableEq, Repr

inductive WalletController where
  | getBalance | initiateDeposit | requestWithdrawal | getHistory | getPendingWithdrawals
  | approveWithdrawal | rejectWithdrawal | manualAdjust
  deriving DecidableEq, Repr

inductive StripeWebhookController where
  | handleWebhook
  deriving DecidableEq, Repr

inductive InternalWalletController where
  | deduct | credit | getPendingWithdrawalsSummary
  deriving DecidableEq, Repr

inductive CmsTransactionController where
  | getMemberHistory
  deriving DecidableEq, Repr

inductive StockController where
  | create | update | delist | findAll | findOne | getPriceHistory
  deriving DecidableEq, Repr

inductive OrderController where
  | buy | sell | getHistory | findOne
  deriving DecidableEq, Repr

inductive PositionController where
  | getPortfolio | getPosition | getPortfolioSummary
  deriving DecidableEq, Repr

inductive AlertController where
  | create | findAll | remove
  deriving DecidableEq, Repr

inductive AnalyticsController where
  | getVolume | getTopStocks | getAum | getActiveMembers | getSectorAllocation
  deriving DecidableEq, Repr

inductive HandlerName where
  | auth (name : AuthController)
  | cmsAuth (name : CmsAuthController)
  | member (name : MemberController)
  | wallet (name : WalletController)
  | stripeWebhook (name : StripeWebhookController)
  | internalWallet (name : InternalWalletController)
  | cmsTransaction (name : CmsTransactionController)
  | stock (name : StockController)
  | order (name : OrderController)
  | position (name : PositionController)
  | alert (name : AlertController)
  | analytics (name : AnalyticsController)
  deriving DecidableEq, Repr

/-- The handlers with `@Param(…, ParseObjectIdPipe)`. The auth service takes an id as it is. -/
def HandlerName.parsesId : HandlerName → Bool
  | .member .getMember | .member .suspendMember | .member .unsuspendMember
  | .member .updateKyc => true
  | .wallet .approveWithdrawal | .wallet .rejectWithdrawal | .wallet .manualAdjust => true
  | .cmsTransaction .getMemberHistory => true
  | .stock .update | .stock .delist | .stock .findOne | .stock .getPriceHistory => true
  | .order .findOne | .position .getPosition | .alert .remove => true
  | _ => false

structure Handler where
  name : HandlerName
  guard : Guard
  identity : Identity
  deriving DecidableEq, Repr

def handler (method : Method) (path : String) (name : HandlerName) (guard : Guard)
    (identity : Identity) : Route Method Handler :=
  ⟨method, apiV1 path, name, guard, identity⟩

def authRoutes : List (Route Method Handler) :=
  [handler .post "/auth/register" (.auth .register) .unguarded .nobody,
    handler .post "/auth/verify-otp" (.auth .verifyOtp) .unguarded .nobody,
    handler .post "/auth/set-password" (.auth .setPassword) .unguarded .nobody,
    handler .post "/auth/resend-otp" (.auth .resendOtp) .unguarded .nobody,
    handler .post "/auth/login" (.auth .login) .unguarded .nobody,
    handler .post "/auth/refresh" (.auth .refresh) .unguarded .nobody,
    handler .post "/auth/logout" (.auth .logout) .jwt .token,
    handler .post "/auth/forgot-password" (.auth .forgotPassword) .unguarded .nobody,
    handler .post "/auth/reset-password" (.auth .resetPassword) .unguarded .nobody,
    handler .post "/cms/auth/login" (.cmsAuth .login) .unguarded .nobody,
    handler .post "/cms/auth/users" (.cmsAuth .createUser) (.cms ["administrator"]) .idHeader,
    handler .get "/cms/auth/users" (.cmsAuth .listUsers) (.cms ["administrator"]) .nobody,
    handler .get "/cms/auth/users/:id" (.cmsAuth .getUserById) (.cms ["administrator"]) .nobody,
    handler .delete "/cms/auth/users/:id" (.cmsAuth .deactivateUser) (.cms ["administrator"])
      .idHeader,
    handler .post "/cms/auth/change-password" (.cmsAuth .changePassword) (.cms []) .idHeader]

def userRoutes : List (Route Method Handler) :=
  [handler .get "/members/me" (.member .getProfile) .unguarded .headers,
    handler .put "/members/me" (.member .updateProfile) .unguarded .headers,
    handler .get "/members/me/portfolio" (.member .getPortfolio) .unguarded .headers,
    handler .get "/cms/members" (.member .listMembers)
      (.cms ["administrator", "support_agent", "analyst"]) .nobody,
    handler .get "/cms/members/:id" (.member .getMember)
      (.cms ["administrator", "support_agent", "analyst"]) .nobody,
    handler .patch "/cms/members/:id/suspend" (.member .suspendMember)
      (.cms ["administrator", "support_agent"]) .nobody,
    handler .patch "/cms/members/:id/unsuspend" (.member .unsuspendMember)
      (.cms ["administrator", "support_agent"]) .nobody,
    handler .patch "/cms/members/:id/kyc" (.member .updateKyc) (.cms ["administrator"]) .nobody,
    handler .get "/cms/analytics/member-growth" (.member .getMemberGrowth) (.cms ["administrator"])
      .nobody]

def walletRoutes : List (Route Method Handler) :=
  [handler .get "/wallet/balance" (.wallet .getBalance) .unguarded .headers,
    handler .post "/wallet/deposit/initiate" (.wallet .initiateDeposit) .unguarded .headers,
    handler .post "/wallet/withdraw" (.wallet .requestWithdrawal) .unguarded .headers,
    handler .get "/wallet/history" (.wallet .getHistory) .unguarded .headers,
    handler .get "/wallet/cms/withdrawals" (.wallet .getPendingWithdrawals)
      (.cms ["administrator", "support_agent"]) .nobody,
    handler .patch "/wallet/cms/withdrawals/:id/approve" (.wallet .approveWithdrawal)
      (.cms ["administrator", "support_agent"]) .headers,
    handler .patch "/wallet/cms/withdrawals/:id/reject" (.wallet .rejectWithdrawal)
      (.cms ["administrator", "support_agent"]) .headers,
    handler .post "/wallet/cms/adjust/:memberId" (.wallet .manualAdjust) (.cms ["administrator"])
      .headers,
    handler .post "/wallet/deposit/webhook" (.stripeWebhook .handleWebhook) .unguarded .nobody,
    handler .post "/internal/wallet/deduct" (.internalWallet .deduct) .unguarded .nobody,
    handler .post "/internal/wallet/credit" (.internalWallet .credit) .unguarded .nobody,
    handler .get "/internal/wallet/cms/withdrawals/summary"
      (.internalWallet .getPendingWithdrawalsSummary) (.cms ["administrator", "support_agent"])
      .nobody,
    handler .get "/cms/transactions/:memberId/history" (.cmsTransaction .getMemberHistory)
      (.cms ["administrator", "support_agent"]) .nobody]

def tradingRoutes : List (Route Method Handler) :=
  [handler .post "/stocks" (.stock .create) (.cms ["administrator", "analyst"]) .nobody,
    handler .patch "/stocks/:id" (.stock .update) (.cms ["administrator", "analyst"]) .nobody,
    handler .patch "/stocks/:id/delist" (.stock .delist) (.cms ["administrator", "analyst"])
      .nobody,
    handler .get "/stocks" (.stock .findAll) .unguarded .nobody,
    handler .get "/stocks/:id" (.stock .findOne) .unguarded .nobody,
    handler .get "/stocks/:id/price-history" (.stock .getPriceHistory) .unguarded .nobody,
    handler .post "/orders/buy" (.order .buy) .unguarded .headers,
    handler .post "/orders/sell" (.order .sell) .unguarded .headers,
    handler .get "/orders" (.order .getHistory) .unguarded .headers,
    handler .get "/orders/:id" (.order .findOne) .unguarded .headers,
    handler .get "/portfolio" (.position .getPortfolio) .unguarded .headers,
    handler .get "/portfolio/:stockId" (.position .getPosition) .unguarded .headers,
    handler .get "/portfolio/portfolio/:memberId/summary" (.position .getPortfolioSummary)
      .unguarded .nobody,
    handler .post "/alerts" (.alert .create) .unguarded .headers,
    handler .get "/alerts" (.alert .findAll) .unguarded .headers,
    handler .delete "/alerts/:id" (.alert .remove) .unguarded .headers,
    handler .get "/analytics/volume" (.analytics .getVolume) (.cms ["administrator", "analyst"])
      .nobody,
    handler .get "/analytics/stocks/top" (.analytics .getTopStocks)
      (.cms ["administrator", "analyst"]) .nobody,
    handler .get "/analytics/aum" (.analytics .getAum) (.cms ["administrator", "analyst"]) .nobody,
    handler .get "/analytics/members/active" (.analytics .getActiveMembers)
      (.cms ["administrator", "analyst"]) .nobody,
    handler .get "/analytics/sectors" (.analytics .getSectorAllocation)
      (.cms ["administrator", "analyst"]) .nobody]

def serviceRoutes : Service → List (Route Method Handler)
  | .auth => authRoutes
  | .user => userRoutes
  | .wallet => walletRoutes
  | .trading => tradingRoutes

end StockMarket.Gateway
