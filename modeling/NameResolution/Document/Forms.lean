import NameResolution.Cache.Credibility
import NameResolution.Cache.Settings
import NameResolution.Document.Basic
import NameResolution.RecordClass
import NameResolution.ResponseCode
import NameResolution.Settings.Basic

/-!
# Forms of names and settings

How names, numbers of the protocol, levels of credibility and settings are kept in configuration
files. Reading settings takes the values as they are, without regard to their limits.
-/

namespace NameResolution

/-- A `Name` is kept as its text. -/
def Name.form : Form Name := .text Name.toText fun text => (Name.ofText? text).toOption

/-- A `RecordType` is kept as its text. -/
def RecordType.form : Form RecordType := .text RecordType.toText RecordType.ofText?

/-- A `RecordClass` is kept as its text. -/
def RecordClass.form : Form RecordClass := .text RecordClass.toText RecordClass.ofText?

/-- A `ResponseCode` is kept as its text. -/
def ResponseCode.form : Form ResponseCode := .text ResponseCode.toText ResponseCode.ofText?

/-- Levels of `Credibility` are kept as their texts. -/
def Credibility.form : Form Credibility := .variant Credibility.toText Credibility.ofText?

/-- A `Preference` is kept as its text. -/
def Preference.form : Form Preference := .variant Preference.toText Preference.ofText?

/-- An `Endpoint` is kept as its text. -/
def Endpoint.form : Form Endpoint := .text Endpoint.toText Endpoint.ofText?

/-- The greatest count that settings can hold. -/
def greatestCount : Nat := 0xFFFFFFFFFFFFFFFF

/-- The `settings` of a `cache`. -/
def CacheSettings.form : Form CacheSettings := .object .default [
  Form.member "max-entries" (.natural greatestCount) maxNames
    fun settings value => { settings with maxNames := value },
  Form.member "max-cache" .duration maxLife
    fun settings value => { settings with maxLife := value },
  Form.member "max-ncache" .duration maxNegativeLife
    fun settings value => { settings with maxNegativeLife := value }]

/-- The `settings` of a resolver. -/
def Settings.form : Form Settings := .object .new [
  Form.member "servers" (.list Endpoint.form) servers
    fun settings value => { settings with servers := value },
  Form.member "search" (.list Name.form) search
    fun settings value => { settings with search := value },
  Form.member "ndots" (.natural greatestCount) ndots
    fun settings value => { settings with ndots := value },
  Form.member "timeout" .duration timeout fun settings value => { settings with timeout := value },
  Form.member "attempts" (.natural greatestCount) attempts
    fun settings value => { settings with attempts := value },
  Form.member "rotate" .flag rotate fun settings value => { settings with rotate := value },
  Form.member "query-budget" (.natural 0xFFFFFFFF) budget
    fun settings value => { settings with budget := value },
  Form.member "addr-preference" Preference.form preference
    fun settings value => { settings with preference := value },
  Form.member "port" (.natural 0xFFFF) (·.port.toNat)
    fun settings value => { settings with port := UInt16.ofNat value }]

end NameResolution
