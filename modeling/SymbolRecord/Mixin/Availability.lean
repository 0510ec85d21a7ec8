import SymbolRecord.Codec
import SymbolRecord.Spelling
/-!
# Availability

A symbol may be available on some platforms only, and there from, and up to, certain versions.

* `SemanticVersion`, with `SemanticVersion.text`.
* `AvailabilityItem`: the availability on one platform.
* `Availability`: the mixin; its payload is the list of items.
-/

namespace SymbolRecord

/-- A version of up to three parts. -/
structure SemanticVersion where
  /-- The first part. -/
  major : Int
  /-- The second part. -/
  minor : Option Int
  /-- The third part. -/
  patch : Option Int
  deriving DecidableEq

namespace SemanticVersion

/-- Versions. -/
def codec : Codec SemanticVersion :=
  (Fields.start mk
    |>.required (.same "major") Codec.integer major
    |>.optional (.same "minor") Codec.integer minor
    |>.optional (.same "patch") Codec.integer patch).codec "SemanticVersion"

/-- The parts that are present. -/
def parts (version : SemanticVersion) : List Int :=
  version.major :: (version.minor.toList ++ version.patch.toList)

/-- The parts that are present, with full stops between them, or the words for a part that is too
long. -/
def text (version : SemanticVersion) : Except String String :=
  match version.parts.mapM Spelling.integer? with
  | some pieces => .ok (String.intercalate "." pieces)
  | none => .error Spelling.tooLong

end SemanticVersion

/-- The availability of a symbol on one domain, such as a platform. -/
structure AvailabilityItem where
  /-- The domain. -/
  domain : Option String
  /-- The version that introduced the symbol. -/
  introduced : Option SemanticVersion
  /-- The version that deprecated it. -/
  deprecated : Option SemanticVersion
  /-- The version that removed it. -/
  obsoleted : Option SemanticVersion
  /-- What to tell its users. -/
  message : Option String
  /-- Its new name. -/
  renamed : Option String
  /-- Whether it is deprecated in every version. -/
  isUnconditionallyDeprecated : Option Bool
  /-- Whether it is available in no version. -/
  isUnconditionallyUnavailable : Option Bool
  /-- Whether a coming version will deprecate it. -/
  willEventuallyBeDeprecated : Option Bool
  deriving DecidableEq

namespace AvailabilityItem

/-- Availability items. -/
def codec : Codec AvailabilityItem :=
  (Fields.start mk
    |>.optional (.same "domain") Codec.text domain
    |>.optional (.same "introduced") SemanticVersion.codec introduced
    |>.optional (.same "deprecated") SemanticVersion.codec deprecated
    |>.optional (.same "obsoleted") SemanticVersion.codec obsoleted
    |>.optional (.same "message") Codec.text message
    |>.optional (.same "renamed") Codec.text renamed
    |>.optional ⟨"isUnconditionallyDeprecated", "is_unconditionally_deprecated"⟩ Codec.flag
      isUnconditionallyDeprecated
    |>.optional ⟨"isUnconditionallyUnavailable", "is_unconditionally_unavailable"⟩ Codec.flag
      isUnconditionallyUnavailable
    |>.optional ⟨"willEventuallyBeDeprecated", "will_eventually_be_deprecated"⟩ Codec.flag
      willEventuallyBeDeprecated).codec "AvailabilityItem"

end AvailabilityItem

/-- The availability of a symbol. -/
structure Availability where
  /-- The availability on each domain. -/
  items : List AvailabilityItem
  deriving DecidableEq

namespace Availability

/-- Availabilities. -/
def codec : Codec Availability :=
  .bare "items" AvailabilityItem.codec.listOf mk items

end Availability

end SymbolRecord
