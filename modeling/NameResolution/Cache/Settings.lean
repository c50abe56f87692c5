import NameResolution.Duration
import NameResolution.Limits

/-!
# Settings of a cache

How many names a cache keeps, and for how long it keeps data and the absence of data at most. The
setters keep the values within their limits.
-/

namespace NameResolution

/-- The settings of a cache. -/
structure CacheSettings where
  maxNames : Nat
  maxLife : Duration
  maxNegativeLife : Duration
  deriving DecidableEq

namespace CacheSettings

/-- How many names may be kept. -/
def nameLimits : Limits Nat := ⟨10000, 1, 100000000⟩

/-- How long data may be kept: a week, and at most ten weeks. -/
def lifeLimits : Limits Duration := ⟨.ofSeconds 604800, .ofSeconds 1, .ofSeconds 6048000⟩

/-- How long the absence of data may be kept: three hours, and at most a day. -/
def negativeLifeLimits : Limits Duration := ⟨.ofSeconds 10800, .ofSeconds 1, .ofSeconds 86400⟩

/-- The `default` settings. -/
def default : CacheSettings := ⟨nameLimits.default, lifeLimits.default, negativeLifeLimits.default⟩

/-- Sets how many names are kept, within `nameLimits`. -/
def setMaxNames (settings : CacheSettings) (value : Nat) : CacheSettings :=
  { settings with maxNames := nameLimits.clamp value }

/-- Sets how long data is kept, within `lifeLimits`. -/
def setMaxLife (settings : CacheSettings) (value : Duration) : CacheSettings :=
  { settings with maxLife := lifeLimits.clamp value }

/-- Sets how long the absence of data is kept, within `negativeLifeLimits`. -/
def setMaxNegativeLife (settings : CacheSettings) (value : Duration) : CacheSettings :=
  { settings with maxNegativeLife := negativeLifeLimits.clamp value }

end CacheSettings

end NameResolution
