import MapServer.BitSets
import MapServer.Cgi.RoundTrip
import MapServer.Chart.BarChart
import MapServer.Chart.ChartPoint
import MapServer.Cluster.LosslessClusters
import MapServer.Cql2.DepthLimit
import MapServer.Cql2.Rebalanced
import MapServer.Crypto.TokenStores
import MapServer.Dbf.FieldsInside
import MapServer.Errors.Credentials
import MapServer.Filter.LikeAgreement
import MapServer.Filter.NodeTokens
import MapServer.Filter.PlainFilter
import MapServer.Filter.Simplify
import MapServer.Filter.SplitFilters
import MapServer.Filter.SqlClosed
import MapServer.Filter.TreeMeaning
import MapServer.Geojson.ShapeGeometry
import MapServer.Graph.LongestPath
import MapServer.Graticule.GraticuleLines
import MapServer.Hash.HashMap
import MapServer.Hash.TableCopy
import MapServer.Html.EntityRoundTrip
import MapServer.Html.SafeMarkup
import MapServer.Io.MimeHeaders
import MapServer.Join.CsvJoin
import MapServer.Label.CacheHistory
import MapServer.Label.CachedLabels
import MapServer.Label.LabelOverlap
import MapServer.Label.LabelWalks
import MapServer.Label.LayoutRuns
import MapServer.Label.LineAlignment
import MapServer.Label.NextGlyph
import MapServer.Map.DrawingOrder
import MapServer.Map.LayerEdits
import MapServer.Map.ScaleTokensUndone
import MapServer.Mapfile.DefaultSubstitutions
import MapServer.Mapfile.ExpressionRoundTrip
import MapServer.Mapfile.InnermostValidation
import MapServer.Mvt.DecodeGeometry
import MapServer.Mvt.RingWinding
import MapServer.Mvt.ValueKinds
import MapServer.Pool.PoolHistory
import MapServer.Pool.PoolSafety
import MapServer.Primitive.ClippedRings
import MapServer.Primitive.Densify
import MapServer.Primitive.PixelToShape
import MapServer.Primitive.RingNesting
import MapServer.Primitive.TransformShape
import MapServer.Project.ReprojectorLifetime
import MapServer.Query.AnyFile
import MapServer.Query.FilterRestored
import MapServer.Query.LayersAlone
import MapServer.Query.ResultCounts
import MapServer.Raster.Approximation
import MapServer.Raster.AverageSample
import MapServer.Raster.PngPalette
import MapServer.Raster.QuantizedRaster
import MapServer.Raster.UtfGridClean
import MapServer.Shape.GeometrySurvives
import MapServer.Shape.IndexSession
import MapServer.Shape.ReadInside
import MapServer.Shape.SmoothedRings
import MapServer.Spatial.PointDistance
import MapServer.Spatial.RingChords
import MapServer.Spatial.SegmentsMeet
import MapServer.Spatial.TreeDiskSearch
import MapServer.Spatial.TreeMemory
import MapServer.Strings.CommifyString
import MapServer.Strings.ReplaceSubstring
import MapServer.Strings.SplitComplex
import MapServer.Strings.ToString
import MapServer.Strings.Trim
import MapServer.Threads.ThreadSafety
import MapServer.Tile.QuadkeyAddress
import MapServer.Tile.SubTile
import MapServer.Union.UnionSearches
import MapServer.Wcs.Subset
