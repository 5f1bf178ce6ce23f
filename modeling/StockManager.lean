import StockManager.Properties.ActiveOwners
import StockManager.Properties.AlertCrossings
import StockManager.Properties.ArchiveDoors
import StockManager.Properties.ArchivedParts
import StockManager.Properties.BagFields
import StockManager.Properties.BestOffers
import StockManager.Properties.BomPreview
import StockManager.Properties.BomQuantities
import StockManager.Properties.Buyability
import StockManager.Properties.CachedPackages
import StockManager.Properties.CatalogRotation
import StockManager.Properties.CategorySeeding
import StockManager.Properties.CollapsedSymbols
import StockManager.Properties.CoveragePrice
import StockManager.Properties.FewestCombination
import StockManager.Properties.InheritedSettings
import StockManager.Properties.KicadListing
import StockManager.Properties.Kitting
import StockManager.Properties.LabelSafety
import StockManager.Properties.LoginLockout
import StockManager.Properties.NamePaths
import StockManager.Properties.NodeEdits
import StockManager.Properties.OrderAccounting
import StockManager.Properties.OrderPositions
import StockManager.Properties.PageWalks
import StockManager.Properties.PartNarrowing
import StockManager.Properties.PartRename
import StockManager.Properties.PartialRelease
import StockManager.Properties.PickDrain
import StockManager.Properties.PlanModels
import StockManager.Properties.PlanReport
import StockManager.Properties.ProviderBudget
import StockManager.Properties.Refinement
import StockManager.Properties.ReportedConfig
import StockManager.Properties.ResetLinks
import StockManager.Properties.ScanImports
import StockManager.Properties.SeatCredentials
import StockManager.Properties.SexprRoundTrip
import StockManager.Properties.SourcingKeys
import StockManager.Properties.SpecBuckets
import StockManager.Properties.StageSplit
import StockManager.Properties.WebCategoryTree
