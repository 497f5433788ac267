/-
Files that are published under URLs, fetched over HTTP.
-/
import PoolKeeper.Http.Basic
import PoolKeeper.Rewards.Download

namespace PoolKeeper.Web

/-- A URL that can be fetched from. -/
def urlOf (text : String) : Except Failure Url :=
  match Url.parse text with
  | .error f => .error (.because "builder error" (.text f.message))
  | .ok url =>
    if url.scheme = "http" ∨ url.scheme = "https" then .ok url
    else .error (.because ("builder error for url (" ++ url.text ++ ")")
      (.text "URL scheme is not allowed"))

/-- Fetches what is served under a URL. -/
def fetchOver (text : String) : Attempt Http Failure Bytes := do
  let url ← Attempt.ofExcept <| (urlOf text).mapError (.because ("error requesting " ++ text))
  let response ← (Http.request (.get url)).mapError fun f =>
    .because ("error requesting " ++ text) (.first (.http f))
  if response.isError then
    throw (.because (text ++ " did not serve the file")
      (.first (.http (.status response.status url.text))))
  Attempt.ofExcept <| (Http.bodyOf response).mapError fun f =>
    Failure.because ("error reading response from " ++ text) (.first (.http f))

/-- Answers a request for a file. -/
def overHttp (call : Web.Call) : Program Http (Web.Reply call) :=
  match call with
  | .fetch url => (fetchOver url).outcome

end PoolKeeper.Web
