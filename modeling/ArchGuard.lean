import ArchGuard.ApiWithin
import ArchGuard.ApprovalCount
import ArchGuard.AssetGroupHierarchy
import ArchGuard.AssuranceGuard
import ArchGuard.AuditArchiveVerified
import ArchGuard.AuditCanonical
import ArchGuard.AuditExactlyOnce
import ArchGuard.AuditVerifyExact
import ArchGuard.AuthzConfinement
import ArchGuard.AuthzReconcileSafety
import ArchGuard.AuthzReviewOrigins
import ArchGuard.CompoundRules
import ArchGuard.ConnectorMapping
import ArchGuard.DirectoryRuns
import ArchGuard.FactorPreservation
import ArchGuard.GrantOutliving
import ArchGuard.GrantedScopes
import ArchGuard.InventoryOrder
import ArchGuard.LicenseGate
import ArchGuard.ListingCache
import ArchGuard.LoginPermission
import ArchGuard.Migrator
import ArchGuard.PasswordObfuscator
import ArchGuard.RecoveryCodes
import ArchGuard.RecoveryRuns
import ArchGuard.Redaction
import ArchGuard.RefreshReuse
import ArchGuard.RehearsalVault
import ArchGuard.RuntimeClosure
import ArchGuard.ScimGroups
import ArchGuard.ScopePatterns
import ArchGuard.SealKeys
import ArchGuard.SealedKeystore
import ArchGuard.SessionLiveness
import ArchGuard.SessionRevocation
import ArchGuard.SigninLockout
import ArchGuard.StepUpRuns
import ArchGuard.StuffingDetector
import ArchGuard.SyncerKeys
import ArchGuard.TenantExpectation
import ArchGuard.TokenAtomicity
import ArchGuard.TokenEndpoint
import ArchGuard.TokenExchange
import ArchGuard.TokenGeneration
import ArchGuard.TokenSigner
import ArchGuard.TotpSeeds
import ArchGuard.TrailExport
import ArchGuard.VerificationCodes
import ArchGuard.WebAuthnClones
