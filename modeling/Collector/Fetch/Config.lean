import Collector.Lib.Machine
import Mathlib.Algebra.Order.Ring.Unbundled.Rat

/-!
Parameters of the fetch core and where they come from: fixed defaults, and a few variables of the
environment.
-/

namespace Collector.Fetch
open Collector.Lib

def mib : Int := 1024 * 1024

structure FetchConfig where
  userAgent : String
  maxBodyBytes : Int := 20 * mib
  maxSitemapBytes : Int := 100 * mib
  maxDecompressionRatio : Int := 200
  ratioGuardMinBytes : Int := mib
  mediaBinaries : Bool := false
  totalTimeout : ℚ := 60
  maxRedirects : Int := 5
  allowedPorts : List Nat := [80, 443]
  denylistFile : Option String := none
  deriving DecidableEq, Repr

/-- `env.get(name)` when it is set and not empty. -/
def givenText (env : String → Option String) (name : String) : Option String :=
  (env name).filter (· ≠ "")

/-- `int(env.get(name, default))`; `none` is a `ValueError`. -/
def envInt (parseInt : String → Option Int) (env : String → Option String) (name : String)
    (default : Int) : Option Int :=
  match env name with
  | none => some default
  | some text => parseInt text

/-- `FetchConfig.from_env`. -/
def FetchConfig.fromEnv (parseInt : String → Option Int) (defaultUserAgent : String)
    (env : String → Option String) : Option FetchConfig := do
  let maxBodyBytes ← envInt parseInt env "COLLECTOR_FETCH_MAX_BODY_BYTES" (20 * mib)
  let maxSitemapBytes ← envInt parseInt env "COLLECTOR_FETCH_MAX_SITEMAP_BYTES" (100 * mib)
  return {
    userAgent := (givenText env "COLLECTOR_FETCH_USER_AGENT").getD defaultUserAgent
    maxBodyBytes, maxSitemapBytes
    mediaBinaries := (env "COLLECTOR_FETCH_MEDIA_BINARIES").getD "0" = "1"
    denylistFile := givenText env "COLLECTOR_FETCH_DENYLIST_FILE" }

end Collector.Fetch
