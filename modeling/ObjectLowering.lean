import ObjectLowering.Batch.Generator
import ObjectLowering.Proofs.StaticAccess.Accessors
import ObjectLowering.Proofs.StaticAccess.Completeness
import ObjectLowering.Proofs.Region
import ObjectLowering.Proofs.Searches
import ObjectLowering.Proofs.StaticAccess.Frame
import ObjectLowering.Proofs.StaticAccess.Calls
import ObjectLowering.Proofs.Unit.Supertypes
import ObjectLowering.Proofs.Unit.Announcements
import ObjectLowering.Proofs.Unit.Dereferences
import ObjectLowering.Proofs.Batch.Isolation
import ObjectLowering.Proofs.Batch.IncludeGraph
import ObjectLowering.Proofs.Forest
import ObjectLowering.Proofs.Batch.Failures
import ObjectLowering.Proofs.Unit.SupertypesFirst
import ObjectLowering.Proofs.Text.StringLiteral
import ObjectLowering.Proofs.Unit.StringPool
import ObjectLowering.Proofs.Unit.SlotDeclarations
import ObjectLowering.Proofs.Type.Literals
import ObjectLowering.Proofs.Unit.Pooled
import ObjectLowering.Proofs.Text.EscapedText
import ObjectLowering.Proofs.Expression.Structure
import ObjectLowering.Proofs.Expression.PrefixOperator
import ObjectLowering.Proofs.Type.StaticMembers
import ObjectLowering.Proofs.Unit.Grouping
import ObjectLowering.Proofs.Batch.SourceHeaders
import ObjectLowering.Proofs.Batch.IncludeGuard
import ObjectLowering.Proofs.Type.UnitScope
import ObjectLowering.Proofs.QualifierChain
import ObjectLowering.Proofs.Splice
import ObjectLowering.Proofs.SlotWrites
import ObjectLowering.Proofs.Additions
import ObjectLowering.Proofs.Numbering
import ObjectLowering.Proofs.Unit.OrderIndependence
import ObjectLowering.Proofs.Type.Selectors
import ObjectLowering.Proofs.StaticAccess.Rendering
import ObjectLowering.Proofs.StaticAccess.NilChecks
import ObjectLowering.Proofs.Ownership
import ObjectLowering.Proofs.Traversal
import ObjectLowering.Proofs.Expression.IntegerConstant
import ObjectLowering.Proofs.StaticAccess.Visits
